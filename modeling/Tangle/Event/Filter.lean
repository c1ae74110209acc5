import Tangle.Event
import Tangle.Text.Bytes
import Tangle.Text.Expression
import Tangle.Text.Quoted
import Tangle.Text.Split

/-!
# Log filters

Which events are shown is said by a list of *rules*, separated by commas. A rule
has the form `TOPIC[SPAN{FIELD=VALUE}]=LEVEL`, in which each part may be left out
with its marks:

* `TOPIC` asks for the events whose topics start with it;
* `SPAN` asks for what happens within a span of that name, which no event does;
* `FIELD` asks for the events that have a field of that name. All events have the
  same one, `message`. With a `VALUE`, which is a number or a regular expression,
  it asks for spans again, and so for no event;
* `LEVEL` shows the events of that level and of the levels above it; without it,
  all are shown.

A word alone is a level if it names one, and else a topic. A level is `error`,
`warn`, `info`, `debug`, `trace` or `off`, in letters of either case, or the
number 1 to 5 or 0 for it.

Of the rules that apply to an event, the one with the longest topic decides, of
those the one with a field, and of those the last. An empty list shows errors
alone, and no event is an error. A list with a faulty rule counts as if none were
given: then the events from `info` on are shown.

The marks of a rule are found without the blanks at its ends, and counted in
bytes; its parts are cut out of the rule with its blanks. So a rule alone keeps
its blanks, as a topic that no event has, and blanks before a rule with marks
shift its parts.
-/

namespace Tangle

/-- The place of a level, after that of errors, which is the first. -/
def Level.rank : Level → Nat
  | warn => 2
  | info => 3
  | debug => 4

namespace Event

/-- The name of the field that all events have. -/
def fieldName : Text := "message".toList

/-- A field that a rule asks for. -/
structure Field where
  /-- The name of the field. -/
  name : Text
  /-- What its value is like. -/
  value : Option Text := none
deriving DecidableEq, Inhabited

/-- Events of a topic, shown down to a level. -/
structure Rule where
  /-- What the topics start with. -/
  topic : Text := []
  /-- The span within which the events happen. -/
  span : Option Text := none
  /-- The field that the events have. -/
  field : Option Field := none
  /-- The rank of the last level that is shown: that of all levels unless one is
      named. -/
  rank : Nat := 5
deriving DecidableEq, Inhabited

/-- The rules by which events are shown. -/
structure Filter where
  /-- The rules, in order. -/
  rules : List Rule
deriving DecidableEq, Inhabited

namespace Field

/-- The text is the exponent of a number, or nothing. -/
def isExponent : Text → Bool
  | [] => true
  | e :: '+' :: digits | e :: '-' :: digits | e :: digits =>
    e.toLower == 'e' && !digits.isEmpty && digits.all (Text.isDigit 10)

/-- The text is a number without a sign: digits with or without a fraction and an
    exponent, an infinity, or no number. -/
def isNumber (t : Text) : Bool :=
  let whole := t.takeWhile (Text.isDigit 10)
  let (fraction, rest) := match t.drop whole.length with
    | '.' :: rest => rest.span (Text.isDigit 10)
    | rest => ([], rest)
  Text.asciiLower t ∈ ["inf".toList, "infinity".toList, "nan".toList] ||
    (!(whole.isEmpty && fraction.isEmpty) && isExponent rest)

/-- The text can be asked of a value. Numbers without a sign, or with a negative
    one, are regular expressions too. -/
def isValue : Text → Bool
  | '+' :: t => isNumber t
  | t => Text.isExpression t

/-- Reads a field. What follows a second sign of equality does not count. -/
def parse? (t : Text) : Option Field :=
  match t, Text.split '=' t with
  | [], _ | _, [] => none
  | _, [name] => some ⟨name, none⟩
  | _, name :: value :: _ => if isValue value then some ⟨name, some value⟩ else none

/-- All events have the field. -/
def onEvents (f : Field) : Bool := f.name == fieldName && f.value.isNone

end Field

namespace Rule

/-- The names of levels. -/
def levelNames : List (String × Nat) :=
  [("off", 0), ("error", 1), ("warn", 2), ("info", 3), ("debug", 4), ("trace", 5)]

/-- The rank of the level of that name or number. -/
def rank? (name : Text) : Option Nat :=
  let digits := if name.head? = some '+' then name.drop 1 else name
  if !digits.isEmpty && digits.all (Text.isDigit 10) then
    let n := Text.number 10 digits
    if n ≤ 5 then some n else none
  else levelNames.lookup (String.ofList (Text.asciiLower name))

/-- A topic may start with that character. -/
def startsTopic (c : Char) : Bool := Text.isWordChar c || c == '-' || c == ':' || c == '_'

/-- The rule, with the level that is named after so many bytes of the text, if
    one is. -/
def withLevel? (r : Rule) (text : Text) (start : Nat) : Option Rule :=
  match Text.dropBytes? start text with
  | none => none
  | some [] => some r
  | some name => (rank? name).map fun rank => { r with rank }

/-- The rule, after so many bytes of the text, of which the last was a closing
    bracket: nothing follows, or a level. -/
def closed? (r : Rule) (text : Text) (start : Nat) : Text → Option Rule
  | [] => some r
  | '=' :: _ => r.withLevel? text (start + 1)
  | _ => none

/-- The rule, with the span and the field that are named after so many bytes of
    the text, where its brackets have opened. -/
def withBrackets? (r : Rule) (text : Text) (start : Nat) (rest : Text) : Option Rule :=
  let (name, rest) := rest.span fun c => c != ']' && c != '{'
  let stop := start + Text.bytes name
  (Text.slice? start stop text).bind fun span =>
    match rest with
    | ']' :: rest => { r with span }.closed? text (stop + 1) rest
    | '{' :: rest =>
      let (field, rest) := rest.span (· != '}')
      let last := stop + 1 + Text.bytes field
      match (Text.slice? (stop + 1) last text).bind Field.parse?, rest with
      | some field, '}' :: ']' :: rest =>
        { r with span := if span = [] then none else some span, field }.closed? text (last + 2) rest
      | _, _ => none
    | _ => none

/-- Reads a rule. -/
def parse? (text : Text) : Option Rule :=
  let (topic, rest) := (Text.trim text).span fun c => c != '=' && c != '['
  let stop := Text.bytes topic
  match topic, rest with
  | [], '[' :: rest => ({} : Rule).withBrackets? text 1 rest
  | [], _ => none
  | c :: _, rest =>
    if startsTopic c then
      match rest with
      | [] => some (match rank? text with
        | some rank => { rank }
        | none => { topic := text })
      | '=' :: _ => (Text.slice? 0 stop text).bind fun topic =>
        { topic : Rule }.withLevel? text (stop + 1)
      | _ :: rest => (Text.slice? 0 stop text).bind fun topic =>
        { topic : Rule }.withBrackets? text (stop + 1) rest
    else none

/-- The rule applies to an event. -/
def applies (r : Rule) (e : Event) : Bool :=
  r.topic.isPrefixOf e.topic.toList && r.span.isNone && r.field.all Field.onEvents

/-- The rule decides before another one that applies too. -/
def outweighs (a b : Rule) : Bool :=
  b.topic.length < a.topic.length ||
    (a.topic.length == b.topic.length && a.field.isSome && b.field.isNone)

end Rule

namespace Filter

/-- Shows the events from `info` on. -/
def standard : Filter := ⟨[{ rank := 3 }]⟩

/-- Shows all events. -/
def verbose : Filter := ⟨[{ rank := 4 }]⟩

/-- The filter of a list of rules, or the standard one. -/
def ofSetting : Option Text → Filter
  | none => standard
  | some list =>
    match ((Text.split ',' list).filter (· != [])).mapM Rule.parse? with
    | none => standard
    | some [] => ⟨[{ rank := 1 }]⟩
    | some rules => ⟨rules⟩

/-- Of two rules, the one that decides. -/
def decisive (a b : Rule) : Rule := if a.outweighs b then a else b

/-- The event is shown. -/
def shows (f : Filter) (e : Event) : Bool :=
  match f.rules.filter (·.applies e) with
  | [] => false
  | r :: more => e.level.rank ≤ (more.foldl decisive r).rank

end Filter

/-- A character as a log shows it: what could command a terminal is escaped. -/
def shownChar (c : Char) : Text :=
  let n := c.toNat
  if n = 0x1B ∨ n = 0x7F then "\\x".toList ++ Text.hexadecimal n
  else if n = 0x07 ∨ n = 0x08 ∨ n = 0x0C then "\\x0".toList ++ Text.hexadecimal n
  else if 0x80 ≤ n ∧ n ≤ 0x9F then "\\u\x7b".toList ++ Text.hexadecimal n ++ "\x7d".toList
  else [c]

/-- The line of an event in a log. -/
def line (e : Event) : Text :=
  e.level.name.toList ++ ' ' :: e.message.toList.flatMap shownChar ++ ['\n']

end Event

end Tangle
