import Mailgrid.Failure

/-!
# What can fail

`Yields b P x`: the computation `x` comes to something with the property `P`, or
it stops because markup is refused, which it does only if `b`. Computations that
are put together of such ones are such ones. Of a computation that may stop for
any reason it is said what holds of all that it comes to.
-/

namespace Mailgrid

theorem eq_ok_of_toOption {x : Except ε α} {a : α} (h : x.toOption = some a) : x = .ok a := by
  cases x with
  | error e => cases h
  | ok b => rw [Option.some.inj h]

theorem keeps_foldlM {P : α → Prop} {Q : β → Prop} {step : α → β → Except ε α} {l : List β}
    (hstep : ∀ {a c a'}, P a → Q c → step a c = .ok a' → P a') (hl : ∀ c ∈ l, Q c) {a a' : α}
    (ha : P a) (h : l.foldlM step a = .ok a') : P a' := by
  induction l generalizing a with
  | nil =>
    cases h
    exact ha
  | cons c rest ih =>
    obtain ⟨hc, hrest⟩ := List.forall_mem_cons.mp hl
    rw [List.foldlM_cons, bind_eq_ok] at h
    obtain ⟨next, hnext, h⟩ := h
    exact ih hrest (hstep ha hc hnext) h

theorem of_mem_mapM {f : α → Except ε β} {l : List α} {out : List β} (h : l.mapM f = .ok out) :
    ∀ b ∈ out, ∃ a ∈ l, f a = .ok b := by
  induction l generalizing out with
  | nil =>
    cases h
    exact nofun
  | cons a rest ih =>
    simp only [List.mapM_cons, bind_eq_ok, pure_eq_ok] at h
    obtain ⟨first, hfirst, others, hothers, rfl⟩ := h
    refine List.forall_mem_cons.mpr ⟨⟨a, List.mem_cons_self, hfirst⟩, fun b hb => ?_⟩
    obtain ⟨c, hc, hb⟩ := ih hothers b hb
    exact ⟨c, List.mem_cons_of_mem a hc, hb⟩

theorem pairwise_mapM {R : α → α → Prop} {S : β → β → Prop} {f : α → Except ε β}
    (hf : ∀ {a b x y}, R a b → f a = .ok x → f b = .ok y → S x y) {l : List α}
    (hl : l.Pairwise R) {out : List β} (h : l.mapM f = .ok out) : out.Pairwise S := by
  induction l generalizing out with
  | nil =>
    cases h
    exact .nil
  | cons a rest ih =>
    obtain ⟨hhead, hrest⟩ := List.pairwise_cons.mp hl
    simp only [List.mapM_cons, bind_eq_ok, pure_eq_ok] at h
    obtain ⟨first, hfirst, others, hothers, rfl⟩ := h
    refine List.pairwise_cons.mpr ⟨fun y hy => ?_, ih hrest hothers⟩
    obtain ⟨b, hb, hby⟩ := of_mem_mapM hothers y hy
    exact hf (hhead b hb) hfirst hby

theorem of_filterAuxM {f : α → Except ε Bool} {l held out : List α}
    (h : List.filterAuxM f l held = .ok out) :
    out = (l.filter fun a => (f a).toOption == some true).reverse ++ held := by
  induction l generalizing held with
  | nil =>
    cases h
    rfl
  | cons a rest ih =>
    rw [List.filterAuxM, bind_eq_ok] at h
    obtain ⟨b, hb, h⟩ := h
    rw [ih h, List.filter_cons, hb]
    cases b <;> simp [Except.toOption]

theorem of_filterM {f : α → Except ε Bool} {l kept : List α} (h : l.filterM f = .ok kept) :
    kept = l.filter fun a => (f a).toOption == some true := by
  rw [List.filterM, bind_eq_ok] at h
  obtain ⟨out, hout, h⟩ := h
  cases h
  simp [of_filterAuxM hout]

/-- A computation that comes to something with `P`, or only if `b` stops at refused markup. -/
def Yields (b : Prop) (P : α → Prop) (x : Except Failure α) : Prop :=
  (∃ a, x = .ok a ∧ P a) ∨ (x = .error .refusedMarkup ∧ b)

namespace Yields

variable {b : Prop} {P : α → Prop} {Q : β → Prop} {x : Except Failure α} {f : α → Except Failure β}

theorem ok {a : α} (h : P a) : Yields b P (.ok a) :=
  .inl ⟨a, rfl, h⟩

theorem bind (hx : Yields b P x) (hf : ∀ {a}, P a → Yields b Q (f a)) : Yields b Q (x >>= f) := by
  obtain ⟨a, rfl, ha⟩ | ⟨rfl, hb⟩ := hx
  · exact hf ha
  · exact .inr ⟨rfl, hb⟩

theorem foldlM {step : α → β → Except Failure α} {l : List β} (hl : ∀ c ∈ l, Q c)
    (hstep : ∀ {a c}, P a → Q c → Yields b P (step a c)) {a : α} (ha : P a) :
    Yields b P (l.foldlM step a) := by
  induction l generalizing a with
  | nil => exact ok ha
  | cons c rest ih =>
    obtain ⟨hc, hrest⟩ := List.forall_mem_cons.mp hl
    rw [List.foldlM_cons]
    exact (hstep ha hc).bind (ih hrest)

end Yields

end Mailgrid
