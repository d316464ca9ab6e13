import Mailgrid.Proofs.Failure
import Mailgrid.Proofs.Markup.Classes
import Mailgrid.Proofs.Markup.Growth

/-!
# Classes as words

Whatever its grammar, a reader gives a list of words or a text for the value of
an attribute, so the classes of what is read are words. A class that is added
comes behind them, and each of them is still the same class.
-/

namespace Mailgrid.Markup

/-- As the value of a class attribute, this lists words. -/
def AttributeValue.ListsWords (value : AttributeValue) : Prop :=
  ∀ c ∈ Tag.classesOf value, wordsOf c = [c]

/-- All classes are words. -/
def Tag.ListsWords (t : Tag) : Prop :=
  ∀ c ∈ t.classes, wordsOf c = [c]

instance (t : Tag) : Decidable t.ListsWords :=
  inferInstanceAs (Decidable (∀ _ ∈ _, _))

theorem AttributeValue.listsWords_text (s : String) : (text s).ListsWords :=
  fun _ => wordsOf_of_mem

theorem AttributeValue.listsWords_wordsOf (s : String) : (words (wordsOf s)).ListsWords :=
  fun _ => wordsOf_of_mem

namespace Tag

variable {t tag : Tag} {name : String}

theorem listsWords_of_attributes (h : ∀ a ∈ t.attributes, a.2.ListsWords) : t.ListsWords := by
  intro c hc
  unfold classes at hc
  split at hc
  · rename_i value hv
    obtain ⟨_, _, hsplit, -⟩ := List.lookup_eq_some_iff.mp hv
    have hmem : ("class", value) ∈ t.attributes := by simp [hsplit]
    exact h _ hmem c hc
  · cases hc

-- ---------------------------------------------------------------------------
-- Changes of a tag

theorem classes_set_text (t : Tag) (s : String) : (t.set "class" (.text s)).classes = wordsOf s := by
  rw [classes, get?_set]
  rfl

theorem classes_set_of_ne (t : Tag) (h : "class" ≠ name) (value : AttributeValue) :
    (t.set name value).classes = t.classes := by
  rw [classes, classes, get?_set_of_ne t h]

theorem ListsWords.classes_addClass (h : t.ListsWords) (hname : wordsOf name = [name]) :
    (t.addClass name).classes =
      if t.hasClass name = true then t.classes else t.classes ++ [name] := by
  unfold addClass
  split
  · rfl
  · have hwords : t.classes.flatMap wordsOf = t.classes := by
      rw [List.flatMap_congr h]
      simp
    rw [classes_set_text, wordsOf_intercalate, List.flatMap_append, hwords, List.flatMap_singleton,
      hname]

theorem ListsWords.set_of_ne (h : t.ListsWords) (hne : "class" ≠ name) (value : AttributeValue) :
    (t.set name value).ListsWords := by
  rw [ListsWords, classes_set_of_ne t hne]
  exact h

theorem ListsWords.addClass (h : t.ListsWords) (hname : wordsOf name = [name]) :
    (t.addClass name).ListsWords := by
  rw [ListsWords, h.classes_addClass hname]
  split
  · exact h
  · exact List.forall_mem_append.mpr ⟨h, List.forall_mem_singleton.mpr hname⟩

theorem ListsWords.markCharset (h : t.ListsWords) (ht : markCharset t = .ok tag) :
    tag.ListsWords := by
  unfold Markup.markCharset at ht
  repeat' split at ht
  all_goals cases ht
  all_goals first | exact h | exact h.set_of_ne (by decide) _

end Tag

-- ---------------------------------------------------------------------------
-- Reading

variable {attributes out : List (String × AttributeValue)}

theorem listsWords_collect {repeated : Repeated} {pairs : List (String × String)}
    (h : collect repeated pairs = .ok out) : ∀ a ∈ out, a.2.ListsWords := by
  refine keeps_foldlM (P := fun known => ∀ a ∈ known, a.2.ListsWords) (Q := fun _ => True)
    (fun {known pair known'} hknown _ hstep => ?_) (fun _ _ => trivial) (a := []) nofun h
  have hvalue := AttributeValue.listsWords_text pair.2
  dsimp only at hstep
  split at hstep
  · cases hstep
    exact List.forall_mem_append.mpr ⟨hknown, List.forall_mem_singleton.mpr hvalue⟩
  · split at hstep
    · cases hstep
      intro a ha
      rcases Table.mem_of_mem_assign ha with rfl | ha
      · exact hvalue
      · exact hknown a ha
    · cases hstep
      exact hknown
    · cases hstep

theorem listsWords_splitLists {grammar : Grammar} {element : String}
    (ha : ∀ a ∈ attributes, a.2.ListsWords) (h : splitLists grammar element attributes = .ok out) :
    ∀ a ∈ out, a.2.ListsWords := by
  unfold splitLists at h
  split at h
  · cases h
    exact ha
  · split at h
    · cases h
      exact nofun
    · cases h
  · intro b hb
    obtain ⟨⟨name, value⟩, hm, hb⟩ := of_mem_mapM h b hb
    simp only [bind_eq_ok] at hb
    obtain ⟨listed, -, hb⟩ := hb
    split at hb
    · split at hb
      · cases hb
        exact AttributeValue.listsWords_wordsOf value.shown
      · cases hb
    · cases hb
      exact ha _ hm

theorem Grammar.Reads.listsWords {grammar : Grammar} {written : OpenTag} {tag : Tag}
    (h : grammar.Reads written tag) : tag.ListsWords := by
  obtain ⟨attributes, hcollect, hread⟩ := h
  simp only [Tag.read] at hread
  split at hread
  · cases hread
  · simp only [bind_eq_ok, pure_eq_ok] at hread
    obtain ⟨split, hsplit, marked, hmarked, _, -, rfl⟩ := hread
    have hattributes := listsWords_splitLists (listsWords_collect hcollect) hsplit
    exact (Tag.listsWords_of_attributes hattributes).markCharset hmarked

theorem listsWords_of_parse {grammar : Grammar} {s : List Char} {f : Forest Unit}
    (h : Forest.parse grammar s = .ok f) : ∀ e ∈ f.descendants, e.tag.ListsWords := by
  intro e he
  obtain ⟨written, -, hreads⟩ := exists_startTag_of_parse h e he
  exact hreads.listsWords

end Mailgrid.Markup
