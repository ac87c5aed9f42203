/-!
Computations that leave log lines. A failing computation keeps the lines it left before it failed.
-/

namespace ResourceLint

inductive LogLevel where
  | debug
  | info
  | warn
  deriving DecidableEq, Repr

def LogLevel.name : LogLevel → String
  | .debug => "DEBUG"
  | .info => "INFO"
  | .warn => "WARN"

structure LogLine where
  level : LogLevel
  message : String
  deriving DecidableEq, Repr

def LogLine.text (l : LogLine) : String := l.level.name ++ " " ++ l.message

/-- A value and the lines left on the way to it. -/
structure Traced (α : Type) where
  log : List LogLine
  value : α

namespace Traced

instance : Monad Traced where
  pure a := ⟨[], a⟩
  bind x f := ⟨x.log ++ (f x.value).log, (f x.value).value⟩

def lines (ls : List LogLine) : Traced Unit := ⟨ls, ()⟩

def debug (message : String) : Traced Unit := lines [⟨.debug, message⟩]

def info (message : String) : Traced Unit := lines [⟨.info, message⟩]

end Traced

abbrev Run (ε : Type) := ExceptT ε Traced

namespace Run

variable {ε ε' α : Type}

def log (x : Run ε α) : List LogLine := (ExceptT.run x).log

def outcome (x : Run ε α) : Except ε α := (ExceptT.run x).value

def ofExcept (x : Except ε α) : Run ε α := ExceptT.mk ⟨[], x⟩

def mapError (f : ε → ε') (x : Run ε α) : Run ε' α :=
  ExceptT.mk ⟨log x, (outcome x).mapError f⟩

end Run

end ResourceLint
