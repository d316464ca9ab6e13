import Mailgrid.Proofs.Expansion.Centered
import Mailgrid.Proofs.Markup.Directly
import Mailgrid.Proofs.Unfolding.OnePass
import Mailgrid.Proofs.Unfolding.Parsed

/-!
# Centering survives expansion

Whatever stands directly in a settled center is centered, or it was generated
for a component in that place and has what the kind of the component passes on.
The invariant `Centering` says so of every draft along a run, as long as the
markup for each component in such a place reads as its frame. A step extends the
centers by the one it settles, or puts the results of a component in its place;
what is generated is no component, so only what is centered is replaced again.
-/

namespace Mailgrid

open Expansion
open Markup (Element Forest Node Tag)

namespace Expansion

variable {s : Spot α} {new f g : Forest α} {through : α → Tag → Prop} {before : Nat}
  {S S' : α → Prop} {Q Q' : α → Tag → Prop}

theorem Replaced.elements (h : Replaced s new through before f g)
    (hQ : ∀ m t, Q m t → Q' m t) (hs : Q s.mark s.tag → ∀ e ∈ new.elements, Q' e.mark e.tag)
    (hf : ∀ e ∈ f.elements, Q e.mark e.tag) : ∀ e ∈ g.elements, Q' e.mark e.tag := by
  induction h with
  | here =>
    obtain ⟨hhere, hnext⟩ := List.forall_mem_cons.mp hf
    rw [Forest.elements_append, List.forall_mem_append]
    exact ⟨hs hhere, fun e he => hQ _ _ (hnext e he)⟩
  | leaf _ _ _ _ ih => exact ih hf
  | inside =>
    obtain ⟨hhere, hnext⟩ := List.forall_mem_cons.mp hf
    exact List.forall_mem_cons.mpr ⟨hQ _ _ hhere, fun e he => hQ _ _ (hnext e he)⟩
  | behind _ _ _ ih =>
    obtain ⟨hhere, hnext⟩ := List.forall_mem_cons.mp hf
    exact List.forall_mem_cons.mpr ⟨hQ _ _ hhere, ih hnext⟩

theorem Replaced.directly_spot (h : Replaced s new through before f g) (hf : f.Directly S Q) :
    s.children.Directly S Q := by
  induction h with
  | here => exact hf.2.1
  | leaf _ _ _ _ ih => exact ih hf
  | inside _ _ _ _ ih => exact ih hf.2.1
  | behind _ _ _ ih => exact ih hf.2.2

theorem Replaced.directly (h : Replaced s new through before f g)
    (hS : ∀ m, m ≠ s.mark → S' m → S m) (hQ : ∀ m t, Q m t → Q' m t)
    (hs : Q s.mark s.tag → ∀ e ∈ new.elements, Q' e.mark e.tag) (hnew : new.Directly S' Q')
    (hnext : s.mark ∉ s.next.marks) (hf : f.Directly S Q) : g.Directly S' Q' := by
  have hkept {k : Forest α} (hk : s.mark ∉ k.marks) : k.Directly S Q → k.Directly S' Q' :=
    fun h => h.mono (fun m hm => hS m fun he => hk (he ▸ hm)) hQ
  induction h with
  | here => exact Forest.directly_append.mpr ⟨hnew, hkept hnext hf.2.2⟩
  | leaf _ _ _ _ ih => exact ih hf
  | inside apart outside _ rest ih =>
    obtain ⟨hhere, hchildren, hbehind⟩ := hf
    exact ⟨fun hm => rest.elements hQ hs (hhere (hS _ apart hm)), ih hchildren,
      hkept outside hbehind⟩
  | behind apart outside _ ih =>
    obtain ⟨hhere, hchildren, hbehind⟩ := hf
    exact ⟨fun hm e he => hQ _ _ (hhere (hS _ apart hm) e he), hkept outside hchildren, ih hbehind⟩

end Expansion

-- ---------------------------------------------------------------------------
-- What reads back

/-- Is what is inside a component of this kind left out of what is generated for it? -/
def Component.leavesOut : Component → Bool
  | .line | .marker | .spacer => true
  | _ => false

/-- The markup for this component reads as its frame around something: the values that are set as
they are have no quotes, and what is written of the inside neither ends early nor goes on. -/
def Pending.ReadsBack (p : Pending) : Prop :=
  ∀ t children, p.place.node = .element t children →
    IsUnquoted p.kind t ∧ (p.kind.leavesOut = false → ∃ inner, children.ReadsAs inner)

theorem Pending.ReadsBack.read_template {p : Pending} (h : p.ReadsBack) (width : Int)
    (hcenter : p.kind ≠ .center) {t : Tag} {children : Forest Nat}
    (hnode : p.place.node = .element t children) (ht : t.IsParsed) : ∃ markup new inner,
      template (.standard width) Format.standard (some p.kind) t children p.place.before
        p.place.after = .ok markup ∧
      Format.standard.read markup.write = .ok new ∧
      new.bare = readResult width p.kind t children
        (neighbours (.standard width) p.place.before p.place.after) inner := by
  obtain ⟨hq, hinside⟩ := h t children hnode
  cases hleft : p.kind.leavesOut with
  | false =>
    obtain ⟨inner, hinner⟩ := hinside hleft
    obtain ⟨markup, new, hread⟩ :=
      Expansion.read_template width hcenter ht hq hinner p.place.before p.place.after
    exact ⟨markup, new, inner, hread⟩
  | true =>
    -- what is generated is then the same as for an empty component
    have hempty : (.nil : Forest Nat).ReadsAs .nil := fun g hg _ => .nil hg
    obtain ⟨markup, new, htemplate, hread, hnew⟩ :=
      Expansion.read_template width hcenter ht hq hempty p.place.before p.place.after
    refine ⟨markup, new, .nil, Eq.trans ?_ htemplate, hread, hnew.trans ?_⟩ <;>
      cases hk : p.kind <;> first | rfl | (rw [hk] at hleft; cases hleft)

-- ---------------------------------------------------------------------------
-- Generated elements

/-- The node with this mark stands directly in an element that was changed in place. -/
def Draft.InSettled (d : Draft) (mark : Nat) : Prop :=
  ∃ c ∈ d.document.content.descendants, c.mark ∈ d.settled ∧
    ∃ e ∈ c.children.elements, e.mark = mark

namespace Unfolder

/-- Along these steps a component of this kind was replaced, and the node with this mark is among
the outermost ones that came in its place. -/
inductive Generates (u : Unfolder) (start last : Draft) (kind : Component) (mark : Nat) : Prop where
  | intro {n m : Nat} {d : Draft} {p : Pending} {text : String} {document : Document}
      {topMarks : List Nat} (before : u.Steps n start d) (selected : u.pending? d = some p)
      (ofKind : p.kind = kind)
      (expansion : Expansion.ofPlace u.rules d.document.format (some p.kind) p.place =
        .ok (.markup text))
      (replaced : d.document.replace p.place.mark text = .ok (document, topMarks))
      (outermost : mark ∈ topMarks) (after : u.Steps m { d with document } last)

theorem Generates.steps {u : Unfolder} {start d e : Draft} {kind : Component} {mark n : Nat}
    (h : u.Generates start d kind mark) (hs : u.Steps n d e) : u.Generates start e kind mark := by
  obtain ⟨before, selected, ofKind, expansion, replaced, outermost, after⟩ := h
  exact ⟨before, selected, ofKind, expansion, replaced, outermost, after.trans hs⟩

/-- Centered, or generated and centered as far as the kind passes that on. -/
def Keeps (u : Unfolder) (start d : Draft) (mark : Nat) (t : Tag) : Prop :=
  IsCentered t ∨ Component.named? t.name = none ∧
    ∃ kind, u.Generates start d kind mark ∧ IsCenteredBy kind t

/-- What stands directly in settled elements keeps its centering. -/
structure Centering (u : Unfolder) (start d : Draft) : Prop where
  marked : d.document.Marked
  known : d.Known
  settled : ∀ m ∈ d.settled, m < d.document.next
  keeps : d.document.content.Directly (· ∈ d.settled) (u.Keeps start d)

variable {u : Unfolder} {start d e : Draft} {p : Pending} {mark n : Nat} {t : Tag}

theorem Keeps.steps (h : u.Keeps start d mark t) (hs : u.Steps n d e) :
    u.Keeps start e mark t := by
  rcases h with h | ⟨hname, kind, hgenerated, hcentered⟩
  · exact .inl h
  · exact .inr ⟨hname, kind, hgenerated.steps hs, hcentered⟩

theorem Keeps.centeredItem (h : u.Keeps start d mark t) :
    u.Keeps start d mark (Expansion.centeredItem t) := by
  unfold Expansion.centeredItem
  split
  · rcases h with h | ⟨hname, kind, hgenerated, hcentered⟩
    · exact .inl h.addClass
    · exact .inr ⟨by rwa [Tag.name_addClass], kind, hgenerated, hcentered.addClass⟩
  · exact h

-- ---------------------------------------------------------------------------
-- One step

theorem directly_center (width : Int) {S : Nat → Prop} {children : Forest Nat}
    (h : children.Directly S (u.Keeps start d)) :
    (∀ e ∈ (center (.standard width) children).elements, u.Keeps start d e.mark e.tag) ∧
      (center (.standard width) children).Directly S (u.Keeps start d) := by
  rw [center_standard]
  refine ⟨?_, (h.mapTop centered).mapTags fun m t => Keeps.centeredItem⟩
  refine (Forest.forall_elements_mapTags (P := u.Keeps start d)).mpr ?_
  refine (Forest.forall_elements_mapTop (P := fun m t => u.Keeps start d m (centeredItem t))).mpr ?_
  intro e _
  exact Keeps.centeredItem (.inl (isCentered_centered e.tag))

section
variable {width : Int} {children : Forest Nat}
  (hs : (Unfolder.standard width).Steps n start d) (hd : Centering (.standard width) start d)
  (selected : (Unfolder.standard width).pending? d = some p)
  (expanded : (Unfolder.standard width).expand d p = .ok e)
  (hnode : p.place.node = .element t children) (hnamed : Component.named? t.name = some p.kind)

include hd selected expanded hnode

/-- Nothing of what comes in is settled, so it only has to keep a centering that it was given. -/
theorem Centering.step_of_replace {new : Forest Unit} (hsettled : e.settled = d.settled)
    (hlast : e.document.next = (new.number d.document.next).2)
    (hcontent : e.document.content =
      d.document.content.replace (· == p.place.mark) (new.number d.document.next).1)
    (hnew : d.InSettled p.place.mark → Keeps (.standard width) start d p.place.mark t →
      ∀ x ∈ (new.number d.document.next).1.elements, Keeps (.standard width) start e x.mark x.tag) :
    Centering (.standard width) start e := by
  obtain ⟨next, -, hreplaced⟩ := replaced_of_placeAfter? (isSome_kindOf?_standard width d)
    (place_of_pending? selected).1 hd.marked.nodup hnode
  obtain ⟨g, hg⟩ := hreplaced (new.number d.document.next).1
  obtain ⟨-, hnext⟩ := hg.nodup_spot hd.marked.nodup
  rw [← hg.eq_replace, ← hcontent] at hg
  have hle : d.document.next ≤ e.document.next := by
    rw [hlast, (new.marks_number d.document.next).2]
    exact Nat.le_add_right _ _
  have hplaced : d.document.content.Directly (· ∈ d.settled)
      fun m t => Keeps (.standard width) start d m t ∧ d.InSettled m :=
    Forest.directly_iff.mpr fun c hc hm x hx =>
      ⟨Forest.directly_iff.mp hd.keeps c hc hm x hx, c, hc, hm, x, hx, rfl⟩
  refine ⟨marked_of_step hd.marked selected expanded, hd.known.step selected expanded, ?_, ?_⟩
  · rw [hsettled]
    exact fun m hm => Nat.lt_of_lt_of_le (hd.settled m hm) hle
  · rw [hsettled]
    refine hg.directly (fun _ _ => id) ?_ (fun h => hnew h.2 h.1) ?_ hnext hplaced
    · exact fun m t h => h.1.steps (.next selected expanded (.refl e))
    · refine Forest.directly_of_not fun m hm hold => ?_
      exact Nat.not_le_of_lt (hd.settled m hold) (Forest.mem_marks_number hm).1

include hnamed

theorem Centering.step_of_center (hcenter : p.kind = .center) :
    Centering (.standard width) start e := by
  have hmarked := marked_of_step hd.marked selected expanded
  have hknown := hd.known.step selected expanded
  have hlater (m : Nat) (t : Tag) (h : Keeps (.standard width) start d m t) :
      Keeps (.standard width) start e m t := h.steps (.next selected expanded (.refl e))
  obtain ⟨next, -, hreplaced⟩ := replaced_of_placeAfter? (isSome_kindOf?_standard width d)
    (place_of_pending? selected).1 hd.marked.nodup hnode
  obtain ⟨g, hg⟩ := hreplaced (.element p.place.mark t (center (.standard width) children) .nil)
  obtain ⟨hchildren, hnext⟩ := hg.nodup_spot hd.marked.nodup
  have hadapt : d.document.content.adapt (· == p.place.mark)
      (fun tag _ => (tag, center (.standard width) children)) = g := hg.eq_adapt _ rfl
  cases expanded.symm.trans
    (expand_of_center hnode (Component.isEmpty_of_named? hnamed) hcenter)
  refine ⟨hmarked, hknown, ?_, ?_⟩
  · intro m hm
    rcases List.mem_append.mp hm with hm | hm
    · exact hd.settled m hm
    · obtain rfl := List.mem_singleton.mp hm
      exact hd.marked.below _ hg.mem_marks
  · have hbefore (m : Nat) (hm : m ≠ p.place.mark) :
        m ∈ d.settled ++ [p.place.mark] → m ∈ d.settled := by
      simp [hm]
    obtain ⟨houter, hinner⟩ := directly_center width (hg.directly_spot hd.keeps)
    have hinside := hinner.mono (fun m hm => hbefore m fun he => hchildren (by
      simpa [center, he] using hm)) hlater
    rw [← hadapt] at hg
    refine hg.directly hbefore hlater ?_ ?_ hnext hd.keeps
    · exact fun h => List.forall_mem_singleton.mpr (hlater _ _ h)
    · exact ⟨fun _ x hx => hlater _ _ (houter x hx), hinside, trivial⟩

include hs

/-- What is replaced is a component, so if it stands in a center it is centered, and what comes in
its place has what its kind passes on. -/
theorem Centering.step_of_ne (hcenter : p.kind ≠ .center)
    (hreads : d.InSettled p.place.mark → p.ReadsBack) : Centering (.standard width) start e := by
  by_cases hplace : d.InSettled p.place.mark
  · have hname := Component.isEmpty_of_named? hnamed
    have ht := hd.known.isParsed selected hnode
    obtain ⟨hq, -⟩ := hreads hplace t children hnode
    obtain ⟨markup, new, inner, htemplate, hread, hnew⟩ :=
      (hreads hplace).read_template width hcenter hnode ht
    rw [← hd.known.format] at htemplate hread
    have hexpand := expand_of_read (u := .standard width) hnode hname hcenter htemplate hread
    cases expanded.symm.trans hexpand
    refine hd.step_of_replace selected hexpand hnode rfl rfl rfl fun _ hkeeps x hx => ?_
    rcases hkeeps with hcentered | ⟨hnone, -⟩
    · have hbare : (new.number d.document.next).1.bare =
          readResult width p.kind t children _ inner :=
        (Forest.bare_number new _).trans hnew
      have htops := isCenteredBy_readResult width hcenter ht hq hcentered children
        (neighbours (.standard width) p.place.before p.place.after) inner
      rw [← hbare] at htops
      obtain ⟨hnone, hpassed⟩ := (Forest.forall_elements_bare (P := fun s =>
        Component.named? s.name = none ∧ IsCenteredBy p.kind s)).mp htops x hx
      refine .inr ⟨hnone, p.kind, ⟨hs, selected, rfl, ofPlace_of_template hnode hname hcenter
        htemplate, ?_, Forest.mark_mem_topMarks x hx, .refl _⟩, hpassed⟩
      rw [Document.replace, hread]
      rfl
    · cases hnone.symm.trans hnamed
  · obtain ⟨-, new, hsettled, hnext, hcontent⟩ | ⟨h, -⟩ := expand_cases hnode expanded
    · exact hd.step_of_replace selected expanded hnode hsettled hnext hcontent
        fun h => absurd h hplace
    · exact absurd h hcenter

end

theorem Centering.step {width : Int} (hs : (Unfolder.standard width).Steps n start d)
    (hd : Centering (.standard width) start d)
    (selected : (Unfolder.standard width).pending? d = some p)
    (expanded : (Unfolder.standard width).expand d p = .ok e)
    (hreads : p.kind ≠ .center → d.InSettled p.place.mark → p.ReadsBack) :
    Centering (.standard width) start e := by
  obtain ⟨-, -, -, t, children, -, -, hnode, -, hlookup, -⟩ := between_of_pending? selected
  by_cases hcenter : p.kind = .center
  · exact hd.step_of_center selected expanded hnode hlookup hcenter
  · exact hd.step_of_ne hs selected expanded hnode hlookup hcenter (hreads hcenter)

variable {width : Int}

-- ---------------------------------------------------------------------------
-- Whole runs

theorem Centering.steps (hstart : Centering (.standard width) start start)
    (hreads : ∀ n d p, (Unfolder.standard width).Steps n start d →
      (Unfolder.standard width).pending? d = some p → p.kind ≠ .center →
        d.InSettled p.place.mark → p.ReadsBack)
    (hs : (Unfolder.standard width).Steps n start d) : Centering (.standard width) start d := by
  have step {d e : Draft} {p : Pending} :
      (∃ n, (Unfolder.standard width).Steps n start d ∧ Centering (.standard width) start d) →
        (Unfolder.standard width).pending? d = some p →
        (Unfolder.standard width).expand d p = .ok e →
        ∃ n, (Unfolder.standard width).Steps n start e ∧ Centering (.standard width) start e := by
    rintro ⟨n, hs, hd⟩ selected expanded
    exact ⟨n + 1, hs.trans (.next selected expanded (.refl e)),
      hd.step hs selected expanded (hreads n d p hs selected)⟩
  obtain ⟨-, -, hd⟩ := hs.keeps step ⟨0, .refl start, hstart⟩
  exact hd

/-- At the end of a run, whatever stands directly in a center is centered, or it was generated for a
component and has what the kind of that passes on. -/
theorem centering_survives (width : Int) {engine : Engine} {log : List Message}
    (built : Engine.build { Settings.standard with columnCount := width } .null =
      .ok (engine, log))
    {text : String} {document : Document}
    (loaded : Document.load engine.format text = .ok document) (limit : Int)
    (done : (engine.unfolder.run limit ⟨document, []⟩).failure = none)
    (reads : ∀ n d p, engine.unfolder.Steps n ⟨document, []⟩ d →
      engine.unfolder.pending? d = some p → p.kind ≠ .center →
        d.InSettled p.place.mark → p.ReadsBack) :
    let last := (engine.unfolder.run limit ⟨document, []⟩).draft
    ∀ c ∈ last.document.content.descendants, c.tag.name = "center" →
      ∀ e ∈ c.children.elements, IsCentered e.tag ∨
        ∃ kind, engine.unfolder.Generates ⟨document, []⟩ last kind e.mark ∧
          IsCenteredBy kind e.tag := by
  obtain ⟨engine', hbuild, hunfolder, hformat⟩ := build_standard width
  rw [hbuild] at built
  cases built
  rw [hformat] at loaded
  rw [hunfolder] at done reads ⊢
  intro last c hc hname e he
  have hstart : Centering (.standard width) ⟨document, []⟩ ⟨document, []⟩ :=
    ⟨Document.marked_of_load loaded, Draft.known_of_load loaded, nofun,
      Forest.directly_of_not fun _ _ => nofun⟩
  obtain ⟨hsteps, hend⟩ := steps_of_run (.standard width) limit ⟨document, []⟩
  have hlast := hstart.steps reads hsteps
  have hsettled : c.mark ∈ last.settled := by
    have hnot := not_pending_of_pending? (hend done) c hc
    have hcenter : Component.named? "center" = some .center := rfl
    rw [pendingKind, hname, hcenter] at hnot
    simpa [Draft.isSettled] using hnot
  rcases Forest.directly_iff.mp hlast.keeps c hc hsettled e he with h | ⟨-, h⟩
  · exact .inl h
  · exact .inr h

-- ---------------------------------------------------------------------------
-- Plain documents

theorem readsBack_of_plain (hnode : ∀ t children, p.place.node = .element t children →
    t.Plain ∧ children.Plain) : p.ReadsBack := by
  intro t children hn
  obtain ⟨ht, hchildren⟩ := hnode t children hn
  refine ⟨fun name _ s hs hm => ?_, fun _ => ⟨_, hchildren.readsAs⟩⟩
  obtain ⟨v, hv, hq⟩ := ht.exists_text hs
  cases hv
  exact (hq _ hm).1 rfl

theorem Regular.readsBack (hstart : start.Regular)
    (hordered : (Unfolder.standard width).Ordered start)
    (hs : (Unfolder.standard width).Steps n start d)
    (selected : (Unfolder.standard width).pending? d = some p) : p.ReadsBack := by
  have step {d e : Draft} {p : Pending} (hd : d.Regular ∧ (Unfolder.standard width).Ordered d)
      (selected : (Unfolder.standard width).pending? d = some p)
      (expanded : (Unfolder.standard width).expand d p = .ok e) :
      e.Regular ∧ (Unfolder.standard width).Ordered e := by
    obtain ⟨e', hexpand, he, -⟩ := hd.1.step hd.2 selected
    cases hexpand.symm.trans expanded
    exact ⟨he, hd.2.step selected expanded⟩
  obtain ⟨hd, -⟩ := hs.keeps step ⟨hstart, hordered⟩
  refine readsBack_of_plain fun t children hnode => ?_
  obtain ⟨next, -, hreplaced⟩ := replaced_of_placeAfter? (isSome_kindOf?_standard width d)
    (place_of_pending? selected).1 hd.marked.nodup hnode
  obtain ⟨g, hg⟩ := hreplaced .nil
  obtain ⟨ht, -, hchildren⟩ := hg.plain_spot hd.plain
  exact ⟨ht, hchildren⟩

/-- A center around a row and a callout. -/
def rowAndCallout : Forest Unit :=
  .element () ⟨"center", [], false⟩ (.element () ⟨"row", [], false⟩ .nil
    (.element () ⟨"callout", [], false⟩ .nil .nil)) .nil

theorem load_rowAndCallout : ∃ document,
    Document.load Format.standard "<center><row></row><callout></callout></center>" = .ok document ∧
      document.content = (rowAndCallout.number 0).1 ∧ Draft.Regular ⟨document, []⟩ := by
  have hplain : rowAndCallout.Plain := by decide
  have hread := Format.read_plain hplain none
  refine ⟨_, bind_eq_ok.mpr ⟨_, hread, rfl⟩, ?_, ?_⟩
  · rfl
  · exact ⟨⟨by decide, by decide⟩, rfl, by decide, by decide, nofun⟩

theorem run_rowAndCallout {document : Document}
    (hcontent : document.content = (rowAndCallout.number 0).1)
    (hregular : Draft.Regular ⟨document, []⟩) :
    ((Unfolder.standard 12).run 3 ⟨document, []⟩).failure = none ∧
      ((Unfolder.standard 12).run 3 ⟨document, []⟩).draft.document.content.bare =
        unfolded 12 (fun _ => false) 0 rowAndCallout := by
  have hsettled : Draft.isSettled ⟨document, []⟩ = fun _ => false := rfl
  have hexpansions : expansions (Draft.isSettled ⟨document, []⟩) document.content ≤ 3 := by
    rw [hsettled, hcontent]
    decide
  obtain ⟨hf, -, hb⟩ := runFrom_of_regular 3 0 hregular
    (ordered_of_unsettled hregular.marked rfl) hexpansions
  refine ⟨hf, hb.trans ?_⟩
  rw [hsettled, hcontent, ← unfolded_bare, Forest.bare_number, unfolded_bare]

theorem centering_survives_rowAndCallout : ∃ engine log document,
    Engine.build { Settings.standard with columnCount := 12 } .null = .ok (engine, log) ∧
      Document.load engine.format "<center><row></row><callout></callout></center>" = .ok document ∧
      let run := engine.unfolder.run 3 ⟨document, []⟩
      run.failure = none ∧
      (∀ n d p, engine.unfolder.Steps n ⟨document, []⟩ d → engine.unfolder.pending? d = some p →
        p.kind ≠ .center → d.InSettled p.place.mark → p.ReadsBack) ∧
      ∀ c ∈ run.draft.document.content.descendants, c.tag.name = "center" →
        ∀ e ∈ c.children.elements, IsCentered e.tag ∨
          ∃ kind, engine.unfolder.Generates ⟨document, []⟩ run.draft kind e.mark ∧
            IsCenteredBy kind e.tag := by
  obtain ⟨engine, hbuild, hunfolder, hformat⟩ := build_standard 12
  obtain ⟨document, hload, hcontent, hregular⟩ := load_rowAndCallout
  obtain ⟨hdone, -⟩ := run_rowAndCallout hcontent hregular
  rw [← hformat] at hload
  rw [← hunfolder] at hdone
  have hreads : ∀ n d p, engine.unfolder.Steps n ⟨document, []⟩ d →
      engine.unfolder.pending? d = some p → p.kind ≠ .center →
        d.InSettled p.place.mark → p.ReadsBack := by
    rw [hunfolder]
    exact fun n d p hs selected _ _ =>
      Regular.readsBack hregular (ordered_of_unsettled hregular.marked rfl) hs selected
  exact ⟨engine, [], document, hbuild, hload, hdone, hreads,
    centering_survives 12 hbuild hload 3 hdone hreads⟩

/-- The classes of a callout go to its inner cell. -/
theorem not_centering_survives : ¬ ∀ (text : String) (document : Document),
    Document.load Format.standard text = .ok document → ∀ limit : Int,
      ((Unfolder.standard 12).run limit ⟨document, []⟩).failure = none →
        ∀ c ∈ ((Unfolder.standard 12).run limit
          ⟨document, []⟩).draft.document.content.descendants, c.tag.name = "center" →
            ∀ e ∈ c.children.elements, IsCentered e.tag := by
  intro h
  obtain ⟨document, hload, hcontent, hregular⟩ := load_rowAndCallout
  obtain ⟨hdone, hbare⟩ := run_rowAndCallout hcontent hregular
  have hall := h _ document hload 3 hdone
  have hall' : ∀ c ∈ (unfolded 12 (fun _ => false) 0 rowAndCallout).descendants,
      c.tag.name = "center" → ∀ e ∈ c.children.elements, IsCentered e.tag := by
    rw [← hbare]
    refine (Forest.forall_bare (Q := fun t children => t.name = "center" →
      ∀ e ∈ children.elements, IsCentered e.tag)).mpr fun c hc hname => ?_
    exact Forest.forall_elements_bare.mpr (hall c hc hname)
  -- the center with what its two children unfold to
  let callout : Tag := centered ⟨"callout", [], false⟩
  let table : Tag := Template.tag "table" (carriedTexts callout ++ [("class", "callout")])
  have hchildren : center (.standard 12) (.element () ⟨"row", [], false⟩ .nil
      (.element () ⟨"callout", [], false⟩ .nil .nil)) =
        .element () (centered ⟨"row", [], false⟩) .nil (.element () callout .nil .nil) := rfl
  have hcenter : pendingKind (fun _ => false) () ⟨"center", [], false⟩ = some .center := rfl
  have hcallout : pendingKind (fun _ => false) () callout = some .callout := rfl
  rw [rowAndCallout, unfolded_element, hcenter, outcome, hchildren, unfolded_element,
    unfolded_element _ _ _ _ callout, hcallout, outcome_of_component 12 (by decide) (by decide),
    resultOf_of_ne 12 (by decide)] at hall'
  have hboth := hall' _ (List.mem_cons_self ..) rfl
  dsimp only at hboth
  rw [Forest.elements_append, Forest.elements_append, List.forall_mem_append,
    List.forall_mem_append] at hboth
  have hcentered : IsCentered table := (List.forall_mem_cons.mp hboth.2.1).1
  have hclass : table.hasClass "float-center" = false := by decide
  exact Bool.false_ne_true (hclass.symm.trans hcentered.floats)

end Unfolder

end Mailgrid
