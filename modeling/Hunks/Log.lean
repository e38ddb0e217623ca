namespace Hunks

inductive Level where
  | debug
  | info
  | warning
  | error
  deriving DecidableEq, Repr

namespace Level

def rank : Level → Nat
  | debug => 0
  | info => 1
  | warning => 2
  | error => 3

def name : Level → String
  | debug => "DEBUG"
  | info => "INFO"
  | warning => "WARNING"
  | error => "ERROR"

end Level

structure Report where
  level : Level
  text : String
  deriving DecidableEq, Repr

/-- Reports in the order they were made; joining two logs takes constant time. -/
inductive Log where
  | empty
  | single (report : Report)
  | join (first second : Log)

namespace Log

instance : EmptyCollection Log := ⟨empty⟩

instance : Append Log := ⟨join⟩

def toListAux : Log → List Report → List Report
  | empty, rest => rest
  | single report, rest => report :: rest
  | join first second, rest => toListAux first (toListAux second rest)

def toList (log : Log) : List Report :=
  toListAux log []

theorem toListAux_eq (log : Log) (rest : List Report) :
    toListAux log rest = toList log ++ rest := by
  induction log generalizing rest with
  | empty => rfl
  | single => rfl
  | join first second ihf ihs =>
    simp only [toList, toListAux]
    rw [ihf, ihs, ihf (toListAux second []), ihs [], List.append_nil, List.append_assoc]

@[simp] theorem toList_empty : toList ∅ = [] := rfl

@[simp] theorem toList_single (report : Report) : toList (single report) = [report] := rfl

@[simp] theorem toList_append (first second : Log) :
    toList (first ++ second) = toList first ++ toList second := by
  show toListAux first (toListAux second []) = _
  rw [toListAux_eq, toListAux_eq, List.append_nil]

def ofList (reports : List Report) : Log :=
  reports.foldl (fun log report ↦ log ++ single report) ∅

def atLeast (level : Level) (log : Log) : List Report :=
  log.toList.filter fun report ↦ level.rank ≤ report.level.rank

end Log

end Hunks
