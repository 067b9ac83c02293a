/-! The journal: lines of text, each with a level, kept only up to a threshold. -/

namespace RenderGraph

inductive Level where
  | error
  | warn
  | info
  | debug
  | trace
  deriving DecidableEq, Repr

namespace Level

def rank : Level → Nat
  | error => 1
  | warn => 2
  | info => 3
  | debug => 4
  | trace => 5

def name : Level → String
  | error => "ERROR"
  | warn => "WARN"
  | info => "INFO"
  | debug => "DEBUG"
  | trace => "TRACE"

end Level

structure LogLine where
  level : Level
  text : String
  deriving DecidableEq, Repr

/-- With no threshold nothing is kept. -/
structure Journal where
  threshold : Option Level := none
  lines : Array LogLine := #[]
  deriving DecidableEq, Repr

namespace Journal

def keeps (j : Journal) (level : Level) : Bool :=
  j.threshold.any fun top => level.rank ≤ top.rank

def write (j : Journal) (level : Level) (text : String) : Journal :=
  if j.keeps level then { j with lines := j.lines.push ⟨level, text⟩ } else j

def writeAll (j : Journal) (lines : List LogLine) : Journal :=
  lines.foldl (fun journal line => journal.write line.level line.text) j

@[simp] theorem threshold_write (j : Journal) (level : Level) (text : String) :
    (j.write level text).threshold = j.threshold := by
  unfold write
  split <;> rfl

@[simp] theorem threshold_writeAll (j : Journal) (lines : List LogLine) :
    (j.writeAll lines).threshold = j.threshold := by
  unfold writeAll
  induction lines generalizing j with
  | nil => rfl
  | cons line lines ih => rw [List.foldl_cons, ih, threshold_write]

end Journal

end RenderGraph
