import Mailgrid.Options
import Mathlib.Data.List.Induction
import Mathlib.Data.List.Nodup
import Mathlib.Logic.Function.Basic

/-!
# Tags given over the standard ones

Merged tags are the standard ones in their order, each with what is given for
it, and behind them what is given for no component. So the table of tags says
of each tag the last component that goes by it, and nothing else that is given
has a part in it.
-/

namespace Mailgrid

open Text (lowerString)

namespace Value

theorem text_beq {s : String} {v : Value} : (text s == v) = true ↔ v = text s := by
  change sameKey (text s) v = true ↔ _
  cases v with
  | text t =>
    simp only [sameKey, beq_iff_eq, text.injEq]
    exact eq_comm
  | float x => cases h : Decimal.whole? x <;> simp [sameKey, whole?, h]
  | _ => simp [sameKey, whole?]

theorem beq_text {s : String} {v : Value} : (v == text s) = true ↔ v = text s := by
  change sameKey v (text s) = true ↔ _
  cases v with
  | text t => simp only [sameKey, beq_iff_eq, text.injEq]
  | float x => cases h : Decimal.whole? x <;> simp [sameKey, whole?, h]
  | _ => simp [sameKey, whole?]

end Value

namespace Table

variable {α κ ν : Type} [BEq κ] {key : κ} {table : List (κ × ν)}

theorem assign_append_of_lookup {old : ν} (h : table.lookup key = some old) (value : ν)
    (rest : List (κ × ν)) : assign key value (table ++ rest) = assign key value table ++ rest := by
  induction table with
  | nil => cases h
  | cons entry others ih =>
    obtain ⟨k, v⟩ := entry
    rw [List.lookup_cons] at h
    split at h
    · rename_i hk
      simp [assign, hk]
    · rename_i hk
      simp [assign, hk, ih h]

theorem assign_map [DecidableEq α] {keyOf : α → κ} {a : α}
    (hkey : ∀ b, (key == keyOf b) = decide (b = a)) (f : α → ν) (value : ν) {l : List α}
    (ha : a ∈ l) (hl : l.Nodup) :
    assign key value (l.map fun b => (keyOf b, f b)) =
      l.map fun b => (keyOf b, if b = a then value else f b) := by
  induction l with
  | nil => cases ha
  | cons b rest ih =>
    obtain ⟨hb, hrest⟩ := List.nodup_cons.mp hl
    rw [List.map_cons, List.map_cons, assign, hkey]
    by_cases hba : b = a
    · subst hba
      have hothers : ∀ c ∈ rest, (keyOf c, f c) = (keyOf c, if c = b then value else f c) :=
        fun c hc => by
          have hcb : c ≠ b := fun h => hb (h ▸ hc)
          rw [if_neg hcb]
      simp [List.map_congr_left hothers]
    · rw [ih ((List.mem_cons.mp ha).resolve_left (Ne.symm hba)) hrest]
      simp [hba]

end Table

/-- Tags as they are given over the standard ones: texts, each key once. -/
structure Overrides where
  entries : List (Value × String)
  distinct : entries.Pairwise fun a b => (b.1 == a.1) = false

namespace Overrides

def tags (given : Overrides) : List (Value × Value) :=
  given.entries.map fun (key, tag) => (key, .text tag)

/-- What is given for components. -/
def known (given : Overrides) : List (Value × String) :=
  given.entries.filter fun (key, _) => (Options.componentOf? key).isSome

/-- What is given for anything else. -/
def unknown (given : Overrides) : List (Value × String) :=
  given.entries.filter fun (key, _) => (Options.componentOf? key).isNone

/-- The tag of a component, before it is put in lower case. -/
def tagOf (given : Overrides) (c : Component) : String :=
  (given.entries.lookup (.text c.key)).getD c.standardTag

/-- What an element is called for it to be a component, if these tags are given. -/
def name (given : Overrides) (c : Component) : String :=
  lowerString (given.tagOf c)

/-- Which component an element of this name is: the last one that goes by it. -/
def component? (given : Overrides) (name : String) : Option Component :=
  Component.all.reverse.find? fun c => given.name c == name

end Overrides

namespace Options

theorem componentOf?_eq_some {key : Value} {c : Component} :
    componentOf? key = some c ↔ key = .text c.key := by
  constructor
  · intro h
    cases key with
    | text s => rw [Component.key_of_ofKey? h]
    | _ => cases h
  · rintro rfl
    exact Component.ofKey?_key c

theorem componentOf?_key (c : Component) : componentOf? (.text c.key) = some c :=
  componentOf?_eq_some.mpr rfl

theorem key_beq (key : Value) (c : Component) :
    (key == .text c.key) = decide (componentOf? key = some c) := by
  rw [Bool.eq_iff_iff, Value.beq_text, decide_eq_true_iff, componentOf?_eq_some]

theorem beq_key (key : Value) (c : Component) :
    (.text c.key == key) = decide (componentOf? key = some c) := by
  rw [Bool.eq_iff_iff, Value.text_beq, decide_eq_true_iff, componentOf?_eq_some]

/-- Tags for all components in the standard order, and more behind them. -/
def arranged (tagOf : Component → String) (rest : List (Value × String)) : List (Value × Value) :=
  (Component.all.map fun c => (.text c.key, .text (tagOf c))) ++
    rest.map fun (key, tag) => (key, .text tag)

theorem lookup_standing (tagOf : Component → String) (c : Component) :
    (Component.all.map fun b => (Value.text b.key, Value.text (tagOf b))).lookup (.text c.key) =
      some (.text (tagOf c)) := by
  cases c <;> rfl

theorem assign_known {key : Value} {c : Component} (h : componentOf? key = some c) (tag : String)
    (tagOf : Component → String) (rest : List (Value × String)) :
    Table.assign key (.text tag) (arranged tagOf rest) =
      arranged (Function.update tagOf c tag) rest := by
  have hkey := componentOf?_eq_some.mp h
  have hlookup := lookup_standing tagOf c
  rw [← hkey] at hlookup
  have hbeq (b : Component) : (key == .text b.key) = decide (b = c) := by
    rw [key_beq, h]
    exact decide_eq_decide.mpr ⟨fun he => (Option.some.inj he).symm, fun he => by rw [he]⟩
  rw [arranged, Table.assign_append_of_lookup hlookup,
    Table.assign_map hbeq (fun b => Value.text (tagOf b)) _ (Component.mem_all c) (by decide)]
  refine congrArg (· ++ _) (List.map_congr_left fun b _ => ?_)
  by_cases hb : b = c
  · rw [hb, if_pos rfl, Function.update_self]
  · rw [if_neg hb, Function.update_of_ne hb]

theorem assign_unknown {key : Value} (h : componentOf? key = none) {tag : String}
    (tagOf : Component → String) {rest : List (Value × String)}
    (hrest : ∀ a ∈ rest, (key == a.1) = false) :
    Table.assign key (.text tag) (arranged tagOf rest) = arranged tagOf (rest ++ [(key, tag)]) := by
  have hlookup : (arranged tagOf rest).lookup key = none := by
    rw [List.lookup_eq_none_iff]
    intro a ha
    rw [arranged, List.mem_append, List.mem_map, List.mem_map] at ha
    obtain ⟨c, -, rfl⟩ | ⟨b, hb, rfl⟩ := ha
    · rw [bne, key_beq, h]
      rfl
    · rw [bne, hrest b hb]
      rfl
  rw [Table.assign_of_lookup hlookup, arranged, arranged]
  simp

theorem tagOf_append_singleton {entries : List (Value × String)} {key : Value} {tag : String}
    (distinct : (entries ++ [(key, tag)]).Pairwise fun a b => (b.1 == a.1) = false)
    (hbefore : entries.Pairwise fun a b => (b.1 == a.1) = false) (c : Component) :
    Overrides.tagOf ⟨entries ++ [(key, tag)], distinct⟩ c =
      if componentOf? key = some c then tag else Overrides.tagOf ⟨entries, hbefore⟩ c := by
  have hlast : List.lookup (Value.text c.key) [(key, tag)] =
      if componentOf? key = some c then some tag else none := by
    rw [List.lookup_cons, beq_key]
    by_cases h : componentOf? key = some c <;> simp [h]
  rw [Overrides.tagOf, Overrides.tagOf, List.lookup_append, hlast]
  by_cases h : componentOf? key = some c
  · have hnone : entries.lookup (.text c.key) = none := by
      rw [List.lookup_eq_none_iff]
      intro a ha
      have hkey := (List.pairwise_append.mp distinct).2.2 a ha _ List.mem_cons_self
      rw [← componentOf?_eq_some.mp h, bne, hkey]
      rfl
    rw [if_pos h, if_pos h, hnone]
    rfl
  · rw [if_neg h, if_neg h, Option.or_none]

/-- The merged tags are the standard ones in their order, each with what is given for it, and
what is given for no component behind them. -/
theorem mergeTags_given (given : Overrides) :
    mergeTags given.tags = arranged given.tagOf given.unknown := by
  obtain ⟨entries, distinct⟩ := given
  induction entries using List.reverseRecOn with
  | nil => rfl
  | append_singleton entries entry ih =>
    obtain ⟨key, tag⟩ := entry
    obtain ⟨hbefore, -, hkey⟩ := List.pairwise_append.mp distinct
    have hmerge : mergeTags (Overrides.tags ⟨entries ++ [(key, tag)], distinct⟩) =
        Table.assign key (.text tag) (mergeTags (Overrides.tags ⟨entries, hbefore⟩)) := by
      simp only [mergeTags, Overrides.tags, List.map_append, List.foldl_append]
      rfl
    have htag := tagOf_append_singleton distinct hbefore
    rw [hmerge, ih hbefore]
    cases h : componentOf? key with
    | some c =>
      have hunknown : Overrides.unknown ⟨entries ++ [(key, tag)], distinct⟩ =
          Overrides.unknown ⟨entries, hbefore⟩ := by
        simp [Overrides.unknown, List.filter_append, h]
      rw [assign_known h, hunknown]
      refine congrArg (arranged · _) (funext fun b => ?_)
      rw [htag, h]
      by_cases hb : b = c
      · rw [hb, if_pos rfl, Function.update_self]
      · rw [if_neg fun he => hb (Option.some.inj he).symm, Function.update_of_ne hb]
    | none =>
      have hunknown : Overrides.unknown ⟨entries ++ [(key, tag)], distinct⟩ =
          Overrides.unknown ⟨entries, hbefore⟩ ++ [(key, tag)] := by
        simp [Overrides.unknown, List.filter_append, h]
      have hrest (a) (ha : a ∈ Overrides.unknown ⟨entries, hbefore⟩) : (key == a.1) = false :=
        hkey a (List.mem_filter.mp ha).1 _ List.mem_cons_self
      rw [assign_unknown h _ hrest, hunknown]
      refine congrArg (arranged · _) (funext fun b => ?_)
      rw [htag, h, if_neg nofun]

section
variable {given : Overrides} {o : Options}

theorem tag_of_merged (merged : o.tags = mergeTags given.tags) (c : Component) :
    o.tag c = .ok (some (given.name c)) := by
  rw [tag, merged, mergeTags_given, arranged, List.lookup_append, lookup_standing]
  rfl

theorem unknownKeys_of_merged (merged : o.tags = mergeTags given.tags) :
    o.unknownKeys = (given.entries.map (·.1)).filter fun key => (componentOf? key).isNone := by
  have hstandard : (Component.all.map fun c => Value.text c.key).filter
      (fun key => (componentOf? key).isNone) = [] := by decide
  have hunknown : (given.unknown.map (·.1)).filter (fun key => (componentOf? key).isNone) =
      (given.entries.map (·.1)).filter fun key => (componentOf? key).isNone := by
    rw [List.filter_map, List.filter_map, Overrides.unknown, List.filter_filter]
    simp only [Function.comp_apply, Bool.and_self]
    rfl
  rw [unknownKeys, merged, mergeTags_given, arranged, List.map_append, List.filter_append,
    List.map_map, List.map_map]
  exact (congrArg (· ++ _) hstandard).trans hunknown

/-- What an entry of the merged tags adds to the table. -/
def listed (table : List (String × Component)) (entry : Value × Value) :
    Except Failure (List (String × Component)) :=
  match componentOf? entry.1 with
  | none => pure table
  | some c => do
    match ← lowerTag entry.2 with
    | some tag => pure (Table.assign tag c table)
    | none => pure table

theorem components_eq (o : Options) : o.components = o.tags.foldlM listed [] := rfl

theorem listed_key (table : List (String × Component)) (c : Component) (tag : String) :
    listed table (.text c.key, .text tag) = .ok (Table.assign (lowerString tag) c table) := by
  rw [listed, componentOf?_key]
  rfl

theorem foldlM_listed_unknown {rest : List (Value × Value)}
    (h : ∀ entry ∈ rest, componentOf? entry.1 = none) (table : List (String × Component)) :
    rest.foldlM listed table = .ok table := by
  induction rest with
  | nil => rfl
  | cons entry rest ih =>
    obtain ⟨hentry, hrest⟩ := List.forall_mem_cons.mp h
    rw [List.foldlM_cons, listed, hentry]
    exact ih hrest

theorem components_of_merged (merged : o.tags = mergeTags given.tags) :
    o.components = .ok (Table.ofList (Component.all.map fun c => (given.name c, c))) := by
  have hunknown : ∀ entry ∈ given.unknown.map fun (key, tag) => (key, Value.text tag),
      componentOf? entry.1 = none := by
    intro entry hentry
    obtain ⟨a, ha, rfl⟩ := List.mem_map.mp hentry
    exact Option.isNone_iff_eq_none.mp (List.mem_filter.mp ha).2
  have hstandard := foldlM_eq_ok (fun table c => listed_key table c (given.tagOf c)) Component.all []
  rw [components_eq, merged, mergeTags_given, arranged, List.foldlM_append, List.foldlM_map,
    hstandard, ok_bind, foldlM_listed_unknown hunknown, Table.ofList, List.foldl_map]
  rfl

end

end Options

namespace Overrides

variable {given other : Overrides}

theorem lookup_entries_eq_some_iff (given : Overrides) {c : Component} {tag : String} :
    given.entries.lookup (.text c.key) = some tag ↔ (.text c.key, tag) ∈ given.entries := by
  obtain ⟨entries, distinct⟩ := given
  induction entries with
  | nil => simp
  | cons entry rest ih =>
    obtain ⟨key, first⟩ := entry
    obtain ⟨hkey, hrest⟩ := List.pairwise_cons.mp distinct
    rw [List.lookup_cons, Options.beq_key, List.mem_cons, Prod.mk.injEq]
    by_cases h : Options.componentOf? key = some c
    · have hnot : (Value.text c.key, tag) ∉ rest := by
        intro hm
        have := hkey _ hm
        rw [Options.beq_key, h, decide_eq_false_iff_not] at this
        exact this rfl
      have hk := Options.componentOf?_eq_some.mp h
      rw [decide_eq_true h]
      simp [hk, hnot, eq_comm]
    · have hne : Value.text c.key ≠ key := fun he => h (he ▸ Options.componentOf?_key c)
      simp [h, hne, ih hrest]

theorem tagOf_of_perm (h : other.known.Perm given.known) : other.tagOf = given.tagOf := by
  refine funext fun c => ?_
  have hknown (g : Overrides) (tag : String) :
      (Value.text c.key, tag) ∈ g.known ↔ (Value.text c.key, tag) ∈ g.entries := by
    simp [known, Options.componentOf?_key]
  have hlookup : other.entries.lookup (.text c.key) = given.entries.lookup (.text c.key) := by
    refine Option.ext fun tag => ?_
    rw [lookup_entries_eq_some_iff, lookup_entries_eq_some_iff, ← hknown, h.mem_iff, hknown]
  rw [tagOf, tagOf, hlookup]

theorem name_of_component? {name : String} {c : Component} (h : given.component? name = some c) :
    given.name c = name := by
  simpa using List.find?_some h

theorem component?_eq_some_iff (hd : (Component.all.map given.name).Nodup) {name : String}
    {c : Component} : given.component? name = some c ↔ given.name c = name := by
  refine ⟨name_of_component?, fun hc => ?_⟩
  obtain ⟨b, hb⟩ : ∃ b, given.component? name = some b :=
    Option.isSome_iff_exists.mp (List.find?_isSome.mpr
      ⟨c, List.mem_reverse.mpr (Component.mem_all c), by simpa using hc⟩)
  have hsame := (name_of_component? hb).trans hc.symm
  rw [hb, List.inj_on_of_nodup_map hd (Component.mem_all b) (Component.mem_all c) hsame]

/-- Which names are those of components. -/
def table (given : Overrides) : List (String × Component) :=
  Table.ofList (Component.all.map fun c => (given.name c, c))

theorem lookup_table (given : Overrides) (name : String) :
    given.table.lookup name = given.component? name := by
  rw [table, Table.lookup_ofList, ← List.map_reverse, component?]
  induction Component.all.reverse with
  | nil => rfl
  | cons c rest ih =>
    rw [List.map_cons, List.lookup_cons, List.find?_cons, ih]
    by_cases h : name = given.name c
    · rw [h, beq_self_eq_true]
    · rw [beq_false_of_ne h, beq_false_of_ne (Ne.symm h)]

theorem mem_keys_table {name : String} :
    name ∈ given.table.map (·.1) ↔ ∃ c, given.name c = name := by
  have hkeys : name ∈ given.table.map (·.1) ↔ given.table.lookup name ≠ none := by
    simp only [Ne, List.lookup_eq_none_iff, bne_iff_ne, not_forall, not_not, List.mem_map,
      exists_prop, @eq_comm _ name]
  rw [hkeys, lookup_table, component?, Ne, List.find?_eq_none]
  simp [Component.mem_all]

end Overrides

namespace Options

/-- The table of tags and the tags of the components come of the same names: the table has these
names and gives each to the last component that goes by it, so if no two go by one name it tells of
each name whose it is. What is given for no component is listed as it is given and has no part in
the table, nor has the order. -/
theorem components_determined (given : Overrides) {o : Options}
    (merged : o.tags = mergeTags given.tags) :
    (∀ c, o.tag c = .ok (some (given.name c))) ∧
      o.unknownKeys = (given.entries.map (·.1)).filter (fun key => (componentOf? key).isNone) ∧
      (∃ table, o.components = .ok table ∧ (table.map (·.1)).Nodup ∧
        (∀ name, name ∈ table.map (·.1) ↔ ∃ c, o.tag c = .ok (some name)) ∧
        (∀ name, table.lookup name = given.component? name) ∧
        ((Component.all.map given.name).Nodup → table.length = 13 ∧
          ∀ name c, table.lookup name = some c ↔ o.tag c = .ok (some name))) ∧
      ∀ (other : Overrides) (o' : Options), o'.tags = mergeTags other.tags →
        (∀ c, o'.tag c = o.tag c) ∨ other.known.Perm given.known →
        o'.components = o.components := by
  have htag (c : Component) (name : String) :
      o.tag c = .ok (some name) ↔ given.name c = name := by
    simp [tag_of_merged merged c]
  refine ⟨tag_of_merged merged, unknownKeys_of_merged merged,
    ⟨given.table, components_of_merged merged, (Table.ofList_spec _).1, fun name => ?_,
      given.lookup_table, fun hd => ⟨?_, fun name c => ?_⟩⟩, fun other o' merged' same => ?_⟩
  · simp only [htag]
    exact Overrides.mem_keys_table
  · have hkeys : ((Component.all.map fun c => (given.name c, c)).map (·.1)).Nodup := by
      rwa [List.map_map]
    rw [Overrides.table, Table.ofList_of_nodup hkeys]
    rfl
  · rw [htag, given.lookup_table]
    exact Overrides.component?_eq_some_iff hd
  · have hname : other.name = given.name := by
      obtain same | same := same
      · refine funext fun c => ((htag c _).mp ?_).symm
        rw [← same c, tag_of_merged merged']
      · exact funext fun c => congrArg lowerString (congrFun (Overrides.tagOf_of_perm same) c)
    rw [components_of_merged merged, components_of_merged merged', hname]

/-- Two names are those of two components each, and two are given for no component. -/
def sharedNames : Overrides where
  entries := [(.text "column", "col"), (.text "callout", "NOTE"), (.int 7, "spacer"),
    (.text "menu", "Item"), (.text "row", "note")]
  distinct := by decide

theorem components_sharedNames : ∃ o,
    ofValue .standard (.mapping [(.text "components", .mapping sharedNames.tags)]) = .ok o ∧
      o.tags = mergeTags sharedNames.tags ∧ o.tag .row = .ok (some "note") ∧
      o.tag .callout = .ok (some "note") ∧ o.unknownKeys = [.text "column", .int 7] ∧
      ∃ table, o.components = .ok table ∧ table.lookup "note" = some .callout ∧
        table.lookup "item" = some .menuItem ∧ table.lookup "col" = none := by
  obtain ⟨htag, hunknown, ⟨table, htable, -, -, hlookup, -⟩, -⟩ :=
    components_determined sharedNames (o := ⟨.int 12, mergeTags sharedNames.tags, []⟩) rfl
  refine ⟨_, rfl, rfl, htag .row, htag .callout, hunknown, table, htable, ?_, ?_, ?_⟩
  · exact (hlookup "note").trans (by decide)
  · exact (hlookup "item").trans (by decide)
  · exact (hlookup "col").trans (by decide)

end Options

end Mailgrid
