import Tangle.Config.Comment

/-!
# Languages

A language is known by its name and by other identifiers, written in capital or
small letters. The library knows a number of languages (`Language.known`); a
configuration may add others, and those come first.
-/

namespace Tangle

/-- A programming language, as far as its comments go. -/
structure Language where
  /-- The name, also a tag. -/
  name : Text
  /-- Other tags for the language. -/
  identifiers : List Text := []
  /-- How it writes comments. -/
  comment : Comment
deriving DecidableEq, Inhabited

namespace Language

/-- The tag stands for the language; the case of the letters `A` to `Z` does not
    count. -/
def hasTag (l : Language) (tag : Text) : Bool :=
  (l.name :: l.identifiers).any fun t => Text.asciiLower t == Text.asciiLower tag

/-- A language whose comments go up to the end of the line. -/
def withLine (name : String) (identifiers : List String) (opening : String) : Language :=
  ⟨name.toList, identifiers.map String.toList, .line opening.toList⟩

/-- A language whose comments stand between two delimiters. -/
def withBlock (name : String) (identifiers : List String) (opening closing : String) : Language :=
  ⟨name.toList, identifiers.map String.toList, .block opening.toList closing.toList⟩

/-- The languages that need no configuration. -/
def known : List Language :=
  [ withLine "c" ["h"] "//",
    withLine "cpp" ["c++", "cxx", "hpp"] "//",
    withLine "java" [] "//",
    withLine "javascript" ["js"] "//",
    withLine "typescript" ["ts"] "//",
    withLine "rust" ["rs"] "//",
    withLine "go" [] "//",
    withLine "swift" [] "//",
    withLine "kotlin" ["kt"] "//",
    withLine "scala" [] "//",
    withLine "csharp" ["cs", "c#"] "//",
    withLine "zig" [] "//",
    withLine "d" [] "//",
    withLine "php" [] "//",
    withLine "verilog" ["v", "sv"] "//",
    withLine "python" ["py", "python3"] "#",
    withLine "ruby" ["rb"] "#",
    withLine "perl" ["pl"] "#",
    withLine "bash" ["sh", "shell", "zsh"] "#",
    withLine "r" [] "#",
    withLine "julia" ["jl"] "#",
    withLine "nim" [] "#",
    withLine "powershell" ["ps1"] "#",
    withLine "yaml" ["yml"] "#",
    withLine "toml" [] "#",
    withLine "make" ["makefile"] "#",
    withLine "cmake" [] "#",
    withLine "dockerfile" ["docker"] "#",
    withLine "lisp" ["cl", "elisp"] ";",
    withLine "scheme" ["scm"] ";",
    withLine "clojure" ["clj", "cljs"] ";",
    withLine "racket" ["rkt"] ";",
    withLine "haskell" ["hs"] "--",
    withLine "elm" [] "--",
    withBlock "ocaml" ["ml"] "(*" "*)",
    withLine "fsharp" ["fs", "f#"] "//",
    withLine "sql" [] "--",
    withLine "lua" [] "--",
    withLine "ada" [] "--",
    withLine "vhdl" [] "--",
    withBlock "html" ["htm"] "<!--" "-->",
    withBlock "xml" [] "<!--" "-->",
    withBlock "css" [] "/*" "*/",
    withLine "scss" ["sass"] "//",
    withLine "tex" ["latex"] "%",
    withLine "fortran" ["f90", "f95"] "!",
    withLine "erlang" ["erl"] "%" ]

end Language

end Tangle
