import CueScript.Proofs.Frame.Isolation
import CueScript.Proofs.Shape.Wording

/-!
# What compiling does

Compiling gives an expression exactly if the text reads and nothing is wrong with the shape
of its special forms.  Otherwise it reports why not, and nothing else can go wrong: what the
reader or the check finds becomes a report that says that the text cannot be compiled, and
the function of the forms is always made, whatever the trees of the symbols are.

In no case does compiling change a store.
-/

namespace CueScript

namespace Heap

/-- Whether a heap has become another with all its tables, stores, views and losses. -/
structure Adds (before after : Heap) : Prop where
  tables : ∀ id < before.tables.size, after.tables[id]? = before.tables[id]?
  stores : ∀ id < before.stores.size, after.stores[id]? = before.stores[id]?
  views : after.views = before.views
  losses : after.losses = before.losses

namespace Adds

variable {before after : Heap} (adds : before.Adds after)

include adds

theorem table {id : Nat} (below : id < before.tables.size) : after.table id = before.table id := by
  rw [Heap.table, Heap.table, adds.tables id below]

theorem holdings (settled : before.Settled) (budget : Nat) (path : List Nat) :
    after.holdings budget path = before.holdings budget path := by
  have left (birth : Nat) : after.left? birth = before.left? birth := by
    rw [left?, left?, adds.losses]
  have viewed (birth : Nat) : after.viewed? birth = before.viewed? birth := by
    rw [viewed?, viewed?, adds.views]
  induction budget generalizing path with
  | zero => rfl
  | succ budget inductionHypothesis =>
      simp only [Heap.holdings, left, viewed, inductionHypothesis]
      congr 1
      funext birth
      cases isView : before.viewed? birth with
      | none => rfl
      | some id =>
          have below := (settled.views _ (mem_views isView)).2
          simp only [Option.map_some, adds.table below]

/-- The entries of the stores that there are stay. -/
theorem entries (settled : before.Settled) {id : Nat} (isStore : id < before.stores.size) :
    after.entries id = before.entries id := by
  have found := Array.getElem?_eq_getElem isStore
  have below := settled.stores id _ found
  have present : after.present = before.present := by
    rw [Heap.present, Heap.present, adds.holdings settled, adds.views, adds.losses]
  have unchanged : after.isUnchanged = before.isUnchanged := by
    rw [isUnchanged, isUnchanged, adds.views, adds.losses]
  rw [Heap.entries, Heap.entries, adds.stores id isStore, found]
  simp only
  rw [adds.table below, present, unchanged]

theorem storeName {id : Nat} (isStore : id < before.stores.size) :
    after.storeName id = before.storeName id := by
  simp only [Heap.storeName, adds.stores id isStore]

end Adds

end Heap

namespace Expression

variable {source : ExpressionSource} {heap : Heap}

theorem adds_compiledHeap (source : ExpressionSource) (forms : List Value) (heap : Heap) :
    heap.Adds (compiledHeap source forms heap) := by
  obtain ⟨vars, isTables, -⟩ := rootedHeap_tables source forms heap
  refine ⟨fun id below => ?_, fun id below => ?_, rootedHeap_views source forms heap,
    rootedHeap_losses source forms heap⟩
  · have opened : (compiledHeap source forms heap).tables =
        (heap.tables.push vars).push [] := by
      rw [← isTables]
      rfl
    rw [opened, Heap.getElem?_push_of_lt (by simpa using Nat.lt_succ_of_lt below),
      Heap.getElem?_push_of_lt below]
  · have opened : (compiledHeap source forms heap).stores = heap.stores.push
        ⟨source.label ++ " locals", (rootedHeap source forms heap).tables.size⟩ := by
      rw [← rootedHeap_stores source forms heap]
      rfl
    rw [opened, Heap.getElem?_push_of_lt below]

/-! ## Reports -/

/-- Why a text cannot be compiled: it does not read, or evaluating one of its lists would
fail because of its shape. -/
inductive Refusal (source : ExpressionSource) (heap : Heap) : Report → Prop
  | unread (fault : ReadFault) (fails : read source.text.toList = .error fault) :
      Refusal source heap (fault.report source.text.toList source.label)
  | misshapen (forms form : List Value) (shape : ShapeFault) (raised : Fault) (report : Report)
      (reads : read source.text.toList = .ok forms)
      (found : (ShapeCheck.run forms).fault = some (form, shape))
      (raises : shape.toFault heap form = .ok raised) (reported : raised.report? = some report) :
      Refusal source heap (shapeReport source.text.toList source.label
        (ShapeCheck.run forms).listsSeen report)

theorem isCompileError_report (fault : ReadFault) (text : List Char) (filename : String) :
    (fault.report text filename).errorClass.isCompileError = true := by
  cases fault with
  | delimiters fault => cases fault <;> rfl
  | sequence fault => rfl
  | formCount count => rfl

/-- Whatever the reason is, the report is one of those for texts that cannot be compiled. -/
theorem Refusal.isCompileError {report : Report} (refusal : Refusal source heap report) :
    report.errorClass.isCompileError = true := by
  cases refusal with
  | unread fault fails => exact isCompileError_report fault _ _
  | misshapen => rfl

/-- Where forms are not fit, the report says why. -/
theorem refusal_of_formsOf
    (unnumbered : heap.left? 0 = none) {report : Report}
    (unfit : formsOf heap source.text.toList source.label = .error report) :
    Refusal source heap report := by
  unfold formsOf at unfit
  cases reads : read source.text.toList with
  | error fault =>
      rw [reads] at unfit
      cases unfit
      exact .unread fault reads
  | ok forms =>
      rw [reads] at unfit
      simp only [Except.mapError, bind, Except.bind] at unfit
      split at unfit
      · cases unfit
      · rename_i form shape found
        cases unfit
        obtain ⟨raised, told, raises, reported, -⟩ :=
          ShapeCheck.exists_report unnumbered reads found
        have same : faultReport heap form shape = told := by
          simp only [faultReport, raises, reported, Option.getD_some]
        rw [same]
        exact .misshapen forms form shape raised told reads found raises reported

/-- Forms are fit exactly if they read and the check finds nothing. -/
theorem formsOf_of_read
    {forms : List Value} (reads : read source.text.toList = .ok forms)
    (passes : (ShapeCheck.run forms).fault = none) :
    formsOf heap source.text.toList source.label = .ok forms := by
  simp only [formsOf, reads, passes, Except.mapError, bind, Except.bind]
  rfl

theorem positive_of_valid {config : Config} (valid : config.warnings = []) :
    0 < config.maxDepth := by
  unfold Config.warnings at valid
  have noDepth := (List.append_eq_nil_iff.mp valid).1
  split at noDepth
  · cases noDepth
  · omega

/-- A source that lacks the test of a choice. -/
def testlessSource : ExpressionSource := { text := "(if)", table := [] }

end Expression

end CueScript
