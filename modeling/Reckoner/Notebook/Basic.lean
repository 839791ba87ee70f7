import Reckoner.Engine.Evaluation
import Reckoner.Notebook.LineReader

/-!
# Notebooks

A notebook evaluates the lines of a document from top to bottom in one scope, which starts anew on
every pass. A line that is blank, has no meaning or fails is skipped and leaves no trace in the scope;
any other line becomes the previous result of the next one. Results are kept by the index of the line,
unless they are functions or undefined.
-/

namespace Reckoner

/-- What a notebook keeps between passes. -/
structure Notebook (K : Type) where
  reader : LineReader K
  /-- The results of the last pass with the indices of their lines, ascending. -/
  results : List (Nat × Value K)
  /-- The scope after the last pass. -/
  scope : Scope K

namespace Notebook

variable {K : Type}

/-- A notebook before its first pass. -/
def new (limits : Limits) : Notebook K :=
  ⟨.new limits.cacheCapacity limits.maxExpressionDepth, [], .empty⟩

variable [Scalar K]

/-- The value of a line that has been read, if it succeeds, and the scope after it. -/
def execute (ctx : Context K) (scope : Scope K) (line : ReadLine K) : Option (Value K) × Scope K :=
  match line.statement.execute ctx scope with
  | .ok (v, after) => (some v, after.setLast v)
  | .error _ => (none, scope)

/-- Evaluates one line. -/
def evaluateLine (ctx : Context K) (reader : LineReader K) (scope : Scope K) (text : String) :
    Option (Value K) × LineReader K × Scope K :=
  let trimmed := Text.trim text
  if trimmed.isEmpty then (none, reader, scope)
  else
    match reader.read trimmed with
    | (.error _, reader) => (none, reader, scope)
    | (.ok line, reader) =>
      let (v, scope) := execute ctx scope line
      (v, reader, scope)

/-- Evaluates lines from the given index on. The registry may change from line to line. -/
def evaluateFrom (engine : Engine K) (registry : Nat → Registry K) :
    (index : Nat) → LineReader K → Scope K → List String → Notebook K
  | _, reader, scope, [] => ⟨reader, [], scope⟩
  | index, reader, scope, text :: rest =>
    let (v, reader, scope) := evaluateLine ⟨engine, registry index⟩ reader scope text
    let after := evaluateFrom engine registry (index + 1) reader scope rest
    match v.filter Value.isDisplayable with
    | some v => { after with results := (index, v) :: after.results }
    | none => after

/-- **Evaluates a document.** -/
def evaluate (notebook : Notebook K) (engine : Engine K) (registry : Registry K) (now : Date)
    (lines : List String) : Notebook K :=
  evaluateFrom engine (fun _ ↦ registry) 0 notebook.reader (Scope.atInstant now) lines

end Notebook

end Reckoner
