import Mailgrid.Proofs.Unfolding.Expanded
import Mailgrid.Proofs.Unfolding.Order

/-!
# A run is one pass

A run on a plain document ends with what the document unfolds to in one pass,
after exactly as many expansions as that takes. A step keeps what the document
unfolds to, because around the component that is selected first there are only
elements that are not pending.
-/

namespace Mailgrid

open Expansion
open Markup (Forest Node Tag)

variable {width : Int} {d : Draft} {p : Pending} {t : Tag} {children : Forest Nat}

theorem Unfolder.kindOf?_standard (width : Int) (d : Draft) (m : Nat) (t : Tag)
    (children : Forest Nat) :
    (Unfolder.standard width).kindOf? d.settled m (.element t children) =
      pendingKind d.isSettled m t := by
  have hnamed : (Unfolder.standard width).components.lookup t.name = Component.named? t.name := rfl
  rw [Unfolder.kindOf?, pendingKind, hnamed, ← Draft.isSettled]
  cases Component.named? t.name <;> cases d.isSettled m <;> rfl

theorem Unfolder.isSome_kindOf?_standard (width : Int) (d : Draft) (m : Nat) (t : Tag)
    (children : Forest Nat) :
    ((Unfolder.standard width).kindOf? d.settled m (.element t children)).isSome =
      (pendingKind d.isSettled m t).isSome := by
  rw [kindOf?_standard]

-- ---------------------------------------------------------------------------
-- Centers

theorem unfolded_settled (width : Int) {settled later : α → Bool} {s : Spot α}
    (hl : ∀ m, m ≠ s.mark → settled m = later m) (hlater : later s.mark = true)
    (hkind : pendingKind settled s.mark s.tag = some .center) (hc : s.children.Plain)
    (hchildren : s.mark ∉ s.children.marks) (hnext : s.mark ∉ s.next.marks) :
    unfolded width later s.before (.element s.mark s.tag (center (.standard width) s.children)
          s.next) =
        unfolded width settled s.before (.element s.mark s.tag s.children s.next) ∧
      expansions later (.element s.mark s.tag (center (.standard width) s.children) s.next) + 1 =
        expansions settled (.element s.mark s.tag s.children s.next) := by
  have hm : pendingKind later s.mark s.tag = none := if_pos hlater
  have hsame {f : Forest α} (h : s.mark ∉ f.marks) : ∀ m ∈ f.marks, later m = settled m :=
    fun m hmf => (hl m fun he => h (he ▸ hmf)).symm
  have hcenter : s.mark ∉ (center (.standard width) s.children).marks := by
    simpa [center] using hchildren
  refine ⟨?_, ?_⟩
  · rw [unfolded_element, unfolded_element, hm, hkind, unfolded_congr (hsame hnext), outcome,
      outcome, unfolded_congr (hsame hcenter)]
  · rw [expansions_of_not_pending hm, expansions_of_pending hkind, expansions_congr (hsame hnext),
      expansions_congr (hsame hcenter), expansions_center width settled hc]
    change _ = 1 + expansions settled s.children + expansions settled s.next
    omega

theorem Draft.Regular.expand_center {wanted : Nat → Node Nat → Bool} {look : Nat → Tag → Bool}
    (hd : d.Regular) (hl : ∀ m t children, wanted m (.element t children) = look m t)
    (hplace : d.document.content.place? wanted = some p.place)
    (hnode : p.place.node = .element t children) (hk : p.kind = .center)
    (hkind : pendingKind d.isSettled p.place.mark t = some .center)
    (hopen : ∀ e ∈ d.document.content.descendants, e.children.isNil = false →
      look e.mark e.tag = false → HandsOn d.isSettled False e.mark e.tag) :
    ∃ e, (Unfolder.standard width).expand d p = .ok e ∧ e.Regular ∧
      unfolded width e.isSettled 0 e.document.content =
        unfolded width d.isSettled 0 d.document.content ∧
      expansions e.isSettled e.document.content + 1 =
        expansions d.isSettled d.document.content := by
  obtain ⟨hmarked, hformat, hplain, hitems, hsettled⟩ := hd
  obtain ⟨next, -, hreplaced⟩ := replaced_of_placeAfter? hl hplace hmarked.nodup hnode
  obtain ⟨g, hg⟩ := hreplaced (.element p.place.mark t (center (.standard width) children) .nil)
  obtain ⟨ht, -, hc⟩ := hg.plain_spot hplain
  obtain ⟨hitem, hitemsIn⟩ := hg.every_spot hitems
  obtain ⟨hapart, hnext⟩ := hg.nodup_spot hmarked.nodup
  have hname : t.name = "center" := Component.named?_eq_some.mp (named_of_pendingKind hkind)
  have hadapt : d.document.content.adapt (· == p.place.mark)
      (fun tag _ => (tag, center (.standard width) children)) = g := hg.eq_adapt _ rfl
  have hexpand : (Unfolder.standard width).expand d p =
      .ok ⟨⟨d.document.format, d.document.spelling, g, d.document.next⟩,
        d.settled ++ [p.place.mark]⟩ := by
    rw [← hadapt]
    exact Unfolder.expand_of_center hnode (by rw [hname]; rfl) hk
  have hmarks : g.marks = d.document.content.marks := by
    obtain ⟨front, back, hf, hb⟩ := hg.marks_eq
    rw [hf, hb]
    simp [Forest.marks, center]
  have hlater (m : Nat) (hm : m ≠ p.place.mark) :
      d.isSettled m = (d.settled ++ [p.place.mark]).contains m := by
    simp [Draft.isSettled, hm]
  obtain ⟨hu, hx⟩ := unfolded_settled width hlater (by simp) hkind hc hapart hnext
  have hopened := hg.mono hopen
  have hvoid : t.void = false := by
    rw [ht.2.2.2.2, hname]
    decide
  refine ⟨_, hexpand, ⟨?_, hformat, ?_, ?_, ?_⟩,
    hopened.unfolded_eq width hlater (columnCount_element _ _ _ _) False.elim hu,
    hopened.expansions_eq hlater hx⟩
  · exact ⟨hmarks ▸ hmarked.nodup, hmarks ▸ hmarked.below⟩
  · exact hg.plain (P := fun _ => true) rfl rfl
      ⟨ht, fun hv => absurd hv (by simp [hvoid]), plain_center width hc, trivial⟩ hplain
  · refine hg.every rfl hitems (Forest.every_element.mpr ⟨hitem, ?_, List.forall_mem_nil _⟩)
    exact every_center width (fun t s _ hn hclass h hs => by
      rw [hclass _ (by decide)]
      exact h (hn ▸ hs)) hc hitemsIn
  · intro m hm
    rcases List.mem_append.mp hm with hm | hm
    · exact hsettled m hm
    · obtain rfl := List.mem_singleton.mp hm
      exact hmarked.below _ hg.mem_marks

-- ---------------------------------------------------------------------------
-- Steps and runs

/-- A step from a regular draft is possible, and brings it closer to what it unfolds to. -/
theorem Draft.Regular.step (hd : d.Regular) (ho : (Unfolder.standard width).Ordered d)
    (selected : (Unfolder.standard width).pending? d = some p) :
    ∃ e, (Unfolder.standard width).expand d p = .ok e ∧ e.Regular ∧
      unfolded width e.isSettled 0 e.document.content =
        unfolded width d.isSettled 0 d.document.content ∧
      expansions e.isSettled e.document.content + 1 =
        expansions d.isSettled d.document.content := by
  obtain ⟨before, level, after, t, children, hb, -, hnode, -, hlookup, hm⟩ :=
    Unfolder.between_of_pending? selected
  obtain ⟨hplace, hk⟩ := Unfolder.place_of_pending? selected
  rw [hnode, Unfolder.kindOf?_standard] at hk
  have hunsettled : ∀ m ∈ children.marks, d.isSettled m = false := by
    intro m hmc
    have houtline := hb.outline
    simp only [hnode, Markup.Node.heading, Markup.Node.children] at houtline
    rw [← Forest.marks_outline children (level + 1)] at hmc
    obtain ⟨x, hx, rfl⟩ := List.mem_map.mp hmc
    have hawaits : (Unfolder.standard width).awaits d.settled p.place.mark (.element t) = true := by
      simp [Unfolder.awaits, hlookup, hm]
    have := ho.unsettled houtline hawaits x (List.mem_append_left _ hx)
    simpa [Draft.isSettled] using this
  have hopen : ∀ e ∈ d.document.content.descendants, e.children.isNil = false →
      (pendingKind d.isSettled e.mark e.tag).isSome = false →
        HandsOn d.isSettled False e.mark e.tag := fun e _ _ he =>
    .inl (Option.isNone_iff_eq_none.mp (by simpa using he))
  by_cases hcenter : p.kind = .center
  · exact hd.expand_center (Unfolder.isSome_kindOf?_standard width d) hplace hnode hcenter (hcenter ▸ hk) hopen
  · obtain ⟨s, new, e, hmark, rfl, rfl, hexpand, he⟩ :=
      hd.exists_expanded width (Unfolder.isSome_kindOf?_standard width d) hplace hnode
        (named_of_pendingKind hk) hcenter
    have hopened := { he with replaced := he.replaced.mono hopen }
    exact ⟨e, hexpand, he.regular,
      hopened.unfolded_eq hd (hmark ▸ hk) hcenter hunsettled False.elim⟩

theorem not_pending_of_pending? (h : (Unfolder.standard width).pending? d = none) :
    ∀ e ∈ d.document.content.descendants, pendingKind d.isSettled e.mark e.tag = none := by
  intro e he
  obtain ⟨x, hx, hm, hh⟩ := Forest.mem_outline_of_mem_descendants he 0
  have hawaits := Unfolder.not_awaits_of_pending? h x hx
  have hkind := Unfolder.isSome_kindOf? (.standard width) d.settled e.mark (.element e.tag e.children)
  rw [Markup.Node.heading, ← hm, ← hh, hawaits, Unfolder.kindOf?_standard, hm] at hkind
  exact Option.isNone_iff_eq_none.mp (by simpa using hkind)

theorem runFrom_of_regular {left : Nat} (limit : Int) (count : Nat) (hd : d.Regular)
    (ho : (Unfolder.standard width).Ordered d)
    (hleft : expansions d.isSettled d.document.content ≤ left) :
    ((Unfolder.standard width).runFrom limit count left d).failure = none ∧
      ((Unfolder.standard width).runFrom limit count left d).count =
        count + expansions d.isSettled d.document.content ∧
      ((Unfolder.standard width).runFrom limit count left d).draft.document.content.bare =
        unfolded width d.isSettled 0 d.document.content := by
  induction left generalizing count d with
  | zero =>
    have hzero : expansions d.isSettled d.document.content = 0 := Nat.le_zero.mp hleft
    unfold Unfolder.runFrom
    cases hp : (Unfolder.standard width).pending? d with
    | none =>
      have hdone := unfolded_of_not_pending width (not_pending_of_pending? hp) 0
      exact ⟨rfl, by simp [hzero], hdone.1.symm⟩
    | some p =>
      obtain ⟨e, -, -, -, hx⟩ := hd.step ho hp
      omega
  | succ left ih =>
    unfold Unfolder.runFrom
    cases hp : (Unfolder.standard width).pending? d with
    | none =>
      have hdone := unfolded_of_not_pending width (not_pending_of_pending? hp) 0
      exact ⟨rfl, by simp [hdone.2], hdone.1.symm⟩
    | some p =>
      obtain ⟨e, hexpand, hregular, hu, hx⟩ := hd.step ho hp
      obtain ⟨hf, hcount, hb⟩ := ih (count + 1) hregular (ho.step hp hexpand) (by omega)
      simp only [hexpand]
      exact ⟨hf, by rw [hcount, ← hx]; omega, hb.trans hu⟩

theorem Draft.Regular.exists_end (hd : d.Regular) (ho : (Unfolder.standard width).Ordered d) :
    ∃ e, (Unfolder.standard width).Steps (expansions d.isSettled d.document.content) d e ∧
      e.document.content.bare = unfolded width d.isSettled 0 d.document.content := by
  obtain ⟨-, hcount, hb⟩ := runFrom_of_regular 0 0 hd ho (Nat.le_refl _)
  obtain ⟨n, hn, hs, -⟩ := Unfolder.steps_of_runFrom (.standard width) 0 0
    (expansions d.isSettled d.document.content) d
  rw [hcount, Nat.zero_add, Nat.zero_add] at hn
  exact ⟨_, hn ▸ hs, hb⟩

theorem Unfolder.build_standard (width : Int) : ∃ engine,
    Engine.build { Settings.standard with columnCount := width } .null = .ok (engine, []) ∧
      engine.unfolder = Unfolder.standard width ∧ engine.format = Format.standard :=
  ⟨_, rfl, rfl, rfl⟩

/-- A run of an engine with the standard tags on a plain document does as many expansions as the
document takes, if it may do so many, and ends with what the document unfolds to. -/
theorem Unfolder.run_is_one_pass (width : Int) {engine : Engine} {log : List Message}
    (built : Engine.build { Settings.standard with columnCount := width } .null =
      .ok (engine, log))
    {document : Document} (formatted : document.format = engine.format)
    (marked : document.Marked) (plain : document.content.Plain)
    (items : ∀ e ∈ document.content.descendants, e.tag.name = "item" →
      e.tag.hasClass "columns" = false)
    (limit : Int) (enough : (expansions (fun _ => false) document.content : Int) ≤ limit) :
    let run := engine.unfolder.run limit ⟨document, []⟩
    run.failure = none ∧ run.count = expansions (fun _ => false) document.content ∧
      run.draft.document.content.bare = unfolded width (fun _ => false) 0 document.content := by
  obtain ⟨engine', hbuild, hunfolder, hformat⟩ := build_standard width
  rw [hbuild] at built
  cases built
  rw [hunfolder]
  have hregular : Draft.Regular ⟨document, []⟩ :=
    ⟨marked, formatted.trans hformat, plain, items, by simp⟩
  have hordered : (Unfolder.standard width).Ordered ⟨document, []⟩ :=
    Unfolder.ordered_of_unsettled marked rfl
  have hleft : expansions (fun _ => false) document.content ≤ limit.toNat := by omega
  obtain ⟨hf, hcount, hb⟩ := runFrom_of_regular limit 0 hregular hordered hleft
  exact ⟨hf, hcount.trans (Nat.zero_add _), hb⟩

theorem Unfolder.run_of_wide_button :
    let document : Document := ⟨Format.standard, .empty,
      .element 0 ⟨"columns", [], false⟩
        (.element 1 ⟨"button", [("class", .text "expand")], false⟩
          (.leaf 2 (.text .plain) "a" .nil) .nil) .nil, 3⟩
    let run := (Unfolder.standard 12).run 3 ⟨document, []⟩
    run.failure = none ∧ run.count = 3 ∧
      run.draft.document.content.bare = unfolded 12 (fun _ => false) 0 document.content :=
  run_is_one_pass 12 rfl rfl ⟨by decide, by decide⟩ (by decide) (by decide) 3 (by decide)

end Mailgrid
