import ResourceLint.Catalog
import ResourceLint.Config
import ResourceLint.Files.Tree
import ResourceLint.Toml.Reader
import ResourceLint.TypeTable.Basic

/-!
Assemblies, catalogues and configurations from text and from files. Assemblies and catalogues are
written in JSON, configurations in TOML.
-/

namespace ResourceLint

open Data

inductive LoadError where
  | unreadable (path : String) (error : FileError)
  | badAssembly
  | badCatalog
  deriving DecidableEq, Repr

def LoadError.message : LoadError → String
  | .unreadable path error => "Failed to read " ++ path ++ ": " ++ error.message
  | .badAssembly => "Failed to parse assembly snapshot"
  | .badCatalog => "Failed to parse schema catalog"

def Assembly.ofText (text : String) : Except LoadError Assembly :=
  match Json.decode Assembly.decode text with
  | some a => .ok a
  | none => .error .badAssembly

def Catalog.ofText (text : String) : Except LoadError Catalog :=
  match Json.decode Catalog.decode text with
  | some c => .ok c
  | none => .error .badCatalog

def Config.ofText (text : String) : Except ConfigError Config :=
  match Toml.decode (Config.decode Format.toml) text with
  | some c => .ok c
  | none => .error .malformed

namespace Files

def loadTypes (fs : Files) (path : String) : Except LoadError TypeTable := do
  let text ← (fs.read path).mapError (.unreadable path)
  return TypeTable.ofAssembly (← Assembly.ofText text)

def loadCatalog (fs : Files) (path : String) : Except LoadError Catalog := do
  let text ← (fs.read path).mapError (.unreadable path)
  Catalog.ofText text

def loadConfig (fs : Files) (path : String) : Except ConfigError Config := do
  let text ← (fs.read path).mapError (.unreadable path)
  Config.ofText text

end Files

end ResourceLint
