import ApiTypings.Fault

/-!
The journal of a computation.

Generation reports what it does and what it had to work around. A computation that reports is a
value together with the entries written on the way, in order; one that may also fail keeps the
entries written before the failure.
-/

namespace ApiTypings

/-- The levels of journal entries. -/
inductive Level where
  | debug
  | info
  | warning
  | error
  deriving DecidableEq, Repr

namespace Level

/-- The rank of a level: entries are kept from a rank upwards. -/
def rank : Level → Nat
  | .debug => 10
  | .info => 20
  | .warning => 30
  | .error => 40

def name : Level → String
  | .debug => "DEBUG"
  | .info => "INFO"
  | .warning => "WARNING"
  | .error => "ERROR"

end Level

/-- The part of the program that writes an entry. -/
inductive Topic where
  | namespaces
  | exclusions
  | typeText
  | members
  | declarations
  | externs
  | settings
  | storage
  | run
  | commandLine
  deriving DecidableEq, Repr

/-- The name under which a topic's entries are filed. -/
def Topic.logger : Topic → String
  | .namespaces => "tidocgen.core.analysis.tree_builder"
  | .exclusions => "tidocgen.core.analysis.excludes"
  | .typeText => "tidocgen.core.formatting.type_expr"
  | .members => "tidocgen.core.rendering.members"
  | .declarations => "tidocgen.core.rendering.declarations"
  | .externs => "tidocgen.core.rendering.externs"
  | .settings => "tidocgen.core.pipeline.validator"
  | .storage => "tidocgen.infra.fs"
  | .run => "tidocgen.core.pipeline.engine"
  | .commandLine => "tidocgen.interface.cli.app"

/-- One entry of the journal. -/
structure Entry where
  level : Level
  topic : Topic
  message : String
  deriving DecidableEq, Repr

/-- A value and the entries written while it was computed. -/
structure Logged (α : Type) where
  value : α
  log : List Entry
  deriving Repr

namespace Logged

variable {α β : Type}

/-- Writes one entry. -/
def tell (level : Level) (topic : Topic) (message : String) : Logged Unit :=
  ⟨(), [⟨level, topic, message⟩]⟩

instance : Monad Logged where
  pure a := ⟨a, []⟩
  bind x f := ⟨(f x.value).value, x.log ++ (f x.value).log⟩

@[simp] theorem value_pure (a : α) : (pure a : Logged α).value = a := rfl

@[simp] theorem log_pure (a : α) : (pure a : Logged α).log = [] := rfl

@[simp] theorem value_bind (x : Logged α) (f : α → Logged β) :
    (x >>= f).value = (f x.value).value := rfl

@[simp] theorem log_bind (x : Logged α) (f : α → Logged β) :
    (x >>= f).log = x.log ++ (f x.value).log := rfl

@[ext] theorem ext {x y : Logged α} (hv : x.value = y.value) (hl : x.log = y.log) : x = y := by
  cases x; cases y; simp_all

instance : LawfulMonad Logged := LawfulMonad.mk' Logged
  (fun x => by ext1 <;> simp [Functor.map])
  (fun x f => by ext1 <;> simp)
  (fun x f g => by ext1 <;> simp)

/-- Runs one computation for each element, in order. -/
def each (f : α → Logged β) : List α → Logged (List β)
  | [] => pure []
  | a :: rest =>
    let head := f a
    let tail := each f rest
    ⟨head.value :: tail.value, head.log ++ tail.log⟩

@[simp] theorem value_each (f : α → Logged β) (xs : List α) :
    (each f xs).value = xs.map fun a => (f a).value := by
  induction xs with
  | nil => rfl
  | cons a rest ih => simp [each, ih]

@[simp] theorem log_each (f : α → Logged β) (xs : List α) :
    (each f xs).log = xs.flatMap fun a => (f a).log := by
  induction xs with
  | nil => rfl
  | cons a rest ih => simp [each, ih]

end Logged

/-- A computation that writes to the journal and may end in a fault. -/
abbrev Report := ExceptT Fault Logged

namespace Report

variable {α β : Type}

/-- The entries written, whether or not the computation succeeds. -/
def log (x : Report α) : List Entry := Logged.log x

/-- The value, or the fault that ended the computation. -/
def outcome (x : Report α) : Except Fault α := Logged.value x

def ofLogged (x : Logged α) : Report α := ExceptT.lift x

def ofExcept (x : Except Fault α) : Report α := ExceptT.mk (pure x)

def tell (level : Level) (topic : Topic) (message : String) : Report Unit :=
  ofLogged (Logged.tell level topic message)

/-- Runs one computation for each element, in order, up to the first fault. -/
def each (f : α → Report β) : List α → Report (List β)
  | [] => pure []
  | a :: rest => do
    let b ← f a
    let bs ← each f rest
    pure (b :: bs)

@[simp] theorem outcome_pure (a : α) : outcome (pure a : Report α) = .ok a := rfl

@[simp] theorem log_pure (a : α) : log (pure a : Report α) = [] := rfl

@[simp] theorem outcome_ofLogged (x : Logged α) : (ofLogged x).outcome = .ok x.value := rfl

@[simp] theorem outcome_tell (level : Level) (topic : Topic) (message : String) :
    (tell level topic message).outcome = .ok () := rfl

@[simp] theorem outcome_ofExcept (x : Except Fault α) : (ofExcept x).outcome = x := rfl

@[simp] theorem log_ofExcept (x : Except Fault α) : (ofExcept x).log = [] := rfl

/-- The outcome of two computations in sequence. -/
@[simp] theorem outcome_bind (x : Report α) (f : α → Report β) :
    (x >>= f).outcome = x.outcome.bind fun a => (f a).outcome := by
  rcases x with ⟨v, l⟩
  cases v <;> rfl

end Report

end ApiTypings
