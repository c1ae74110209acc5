import Tangle.Config.Reading
import Tangle.Disk.Basic
import Tangle.Path.Ancestors
import Tangle.Report

/-!
# Configuration files

The configuration of a directory is the file `sphweb.toml`, or else the file
`.sphweb.toml`, in the nearest of the directory and its ancestors that has one.
Without such a file all settings have their defaults.
-/

namespace Tangle.Config

/-- The names of configuration files, the preferred one first. -/
def fileNames : List Text := ["sphweb.toml".toList, ".sphweb.toml".toList]

/-- The configuration file of a directory, given which paths are files. -/
def nearestFile? (isFile : Path → Bool) (directory : Path) : Option Path :=
  directory.ancestors.findSome? fun dir => (fileNames.map dir.child).find? isFile

/-- Reads a configuration file. -/
def readAt (d : Disk) (path : Path) : Report Config :=
  match d.read path with
  | .error fault => Report.fail (.unreadableConfig path fault)
  | .ok text =>
    match parse text with
    | none => Report.fail .malformedConfig
    | some config => do
      Report.note (.configured path)
      return config

/-- Reads the configuration of a directory. -/
def readFor (d : Disk) (directory : Path) : Report Config :=
  match nearestFile? d.isFile directory with
  | some path => readAt d path
  | none => return {}

end Tangle.Config
