import BzccScanner.JsonRun

/-! Which well-formed texts the reader gets through. After the brace of an
object that is nested in an object it expects a key, so a comma is refused. -/

namespace BzccScanner

open CString Reader

variable {σ : Type}

/-- The run reaches the end of the stream and returns 0. -/
def ReadsWhole (cb : Callback σ) (data : σ) (reads : List Read) : Prop :=
  ∃ p w, parseDataEnding cb false data reads = .eof p w ∧
    parseData cb false data reads = .ok (0, w)

theorem readsWhole_of_objectsLast {cb : Callback σ} (hcb : ∀ k d, (cb k d).code = 0) (data : σ)
    (doc : Document) (d : Division doc.text) (h : doc.root.objectsLast = true) :
    ReadsWhole cb data d.reads := by
  obtain ⟨p, s, w, he, -⟩ := parseDataEnding_eof hcb data d (run_document doc h)
  exact ⟨p, w, he, by rw [parseData, he]; rfl⟩

theorem not_readsWhole {cb : Callback σ} (hcb : ∀ k d, (cb k d).code = 0) (data : σ)
    (doc : Document) (d : Division doc.text) (h : doc.root.objectsLast = false) :
    ¬ ReadsWhole cb data d.reads := by
  obtain ⟨items, hi⟩ := run_document_stop doc h
  obtain ⟨w, he⟩ := parseDataEnding_exit hcb data d hi
  rintro ⟨p, w', he', -⟩
  rw [he] at he'
  cases he'

/-- A text is read to its end exactly when no object-valued member of an
object has a member behind it. -/
theorem readsWhole_iff (cb : Callback σ) (hcb : ∀ k d, (cb k d).code = 0) (data : σ)
    (doc : Document) (d : Division doc.text) :
    ReadsWhole cb data d.reads ↔ doc.root.objectsLast = true := by
  refine ⟨fun h => ?_, readsWhole_of_objectsLast hcb data doc d⟩
  by_contra hn
  exact not_readsWhole hcb data doc d (by simpa using hn) h

def labelA : Label := ⟨[], ⟨[0x61], by simp, by decide⟩, [], []⟩

def labelB : Label := ⟨[], ⟨[0x62], by simp, by decide⟩, [], []⟩

def one : Scalar := .bare ⟨[0x31], by simp, List.forall_mem_singleton.mpr rfl⟩

theorem one_lt : one.value.length < genericBuflen - 1 := by decide

/-- `{"a":{},"b":1}` -/
def nestedObject : Document where
  before := []
  root := .object (.cons labelA (.emptyObject []) [] (.last labelB (.scalar one one_lt) []))
  isObject := rfl
  height_lt := by decide
  after := []

theorem nestedObject_not_whole :
    nestedObject.text = [0x7b, 0x22, 0x61, 0x22, 0x3a, 0x7b, 0x7d, 0x2c, 0x22, 0x62, 0x22, 0x3a, 0x31, 0x7d] ∧
      ¬ ReadsWhole accept () (Division.single nestedObject.text).reads :=
  ⟨rfl, not_readsWhole (fun _ _ => rfl) () nestedObject _ rfl⟩

/-- `{"b":1,"a":{"b":1}}` -/
def lastObject : Document where
  before := []
  root := .object (.cons labelB (.scalar one one_lt) []
    (.last labelA (.object (.last labelB (.scalar one one_lt) [])) []))
  isObject := rfl
  height_lt := by decide
  after := []

theorem readsWhole_iff_lastObject : ReadsWhole accept () (Division.single lastObject.text).reads :=
  (readsWhole_iff accept (fun _ _ => rfl) () lastObject _).mpr rfl

end BzccScanner
