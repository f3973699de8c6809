import GridFold.Text.Setting

/-!
# GridFold.Sweep.Policy

Whether boxes are shared out among workers, and from which size on. Both can be set from outside;
a setting that cannot be read is passed over.
-/

namespace GridFold

inductive Strategy where
  | serial
  | parallel
  deriving DecidableEq

namespace Strategy

def name : Strategy → String
  | serial => "Serial"
  | parallel => "Parallel"

/-- Reads a setting; blanks around it and the case of ASCII letters do not count. -/
def ofSetting? (setting : String) : Option Strategy :=
  let word := (Text.trim setting).map Char.toLower
  if word = "serial".toList then some serial
  else if word = "parallel".toList then some parallel
  else none

end Strategy

structure Policy where
  strategy : Strategy
  /-- Boxes of at most this many indices are not shared out. -/
  minParallelLength : Nat
  deriving DecidableEq

namespace Policy

def defaultMinParallelLength : Nat := 0x8000

def serial : Policy := ⟨.serial, defaultMinParallelLength⟩

def parallel : Policy := ⟨.parallel, defaultMinParallelLength⟩

/-- The policy where nothing else is asked for. -/
def standard : Policy := parallel

/-- The standard policy, changed by the settings that are there and can be read. -/
def ofSettings (strategy minLength : Option String) : Policy :=
  { strategy := (strategy.bind Strategy.ofSetting?).getD standard.strategy
    minParallelLength :=
      (minLength.bind fun s => Text.number? (Text.trim s)).getD standard.minParallelLength }

end Policy

end GridFold
