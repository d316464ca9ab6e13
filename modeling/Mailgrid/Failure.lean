/-!
# Failures

Why a conversion, an engine or a job cannot be completed. A failure of the
conversion itself has a message; the others come from options, settings and
files that cannot be used as they are.
-/

namespace Mailgrid

inductive Failure where
  -- the conversion itself
  | notAnElement (found : String)
  | unnamedElement
  | expansionLimit (limit : Int) (tag : String)
  -- markup
  | refusedMarkup
  | repeatedAttribute
  | documentReplaced
  -- options
  | optionsNotMapping
  | notPairs
  | pairOfWrongLength
  | unusableKey
  | keyNotText
  | tagNotText
  | widthNotNumber
  | attributeNotText
  | unknownReader
  | readerNotNamed
  | unknownParserOption
  | parserOptionMistyped
  | parserOptionWithoutParts
  | unknownStyle
  | styleNotNamed
  -- values of an options file
  | emptyNumber
  | malformedNumber
  | numberTooLong
  | numberTooLarge
  | unknownTruth
  | malformedDate
  | impossibleDate
  | dateNotScalar
  | impossibleCharacter
  | characterTooLarge
  | nestedTooDeep
  -- settings and messages
  | invalidSetting
  | unknownField
  | reservedField
  | unknownPart
  | missingItem
  | withoutItems
  | malformedPlaceholder
  | unusableLayout
  | tooWide
  -- files
  | emptyPattern
  | patternWithoutParts
  | patternOfSlash
  | absolutePattern
  | misplacedWildcard
  | notUtf8
  | noSuchFile
  | fileExists
  | isDirectory
  | notDirectory
  | nameTooLong
  | pathWithNought

/-- Only failures of the conversion itself carry a message. -/
def Failure.message? : Failure → Option String
  | .notAnElement found => some ("Expected an element, got " ++ found)
  | .unnamedElement => some "Element must have a tag name"
  | .expansionLimit limit tag =>
    some ("Gave up after " ++ toString limit ++ " component rewrites; <" ++ tag ++
      "> is still pending. A component is re-emitting its own tag.")
  | _ => none

theorem bind_eq_ok {x : Except ε α} {f : α → Except ε β} {b : β} :
    x >>= f = .ok b ↔ ∃ a, x = .ok a ∧ f a = .ok b := by
  cases x <;> simp [bind, Except.bind]

theorem ok_bind (a : α) (f : α → Except ε β) : (Except.ok a >>= f) = f a := rfl

theorem mapM_eq_ok {f : α → Except ε β} {g : α → β} {l : List α} (h : ∀ a ∈ l, f a = .ok (g a)) :
    l.mapM f = .ok (l.map g) := by
  induction l with
  | nil => rfl
  | cons a rest ih =>
    simp only [List.mem_cons, forall_eq_or_imp] at h
    rw [List.mapM_cons, h.1, ih h.2]
    rfl

theorem foldlM_eq_ok {step : β → α → Except ε β} {next : β → α → β}
    (h : ∀ b a, step b a = .ok (next b a)) (l : List α) (b : β) :
    l.foldlM step b = .ok (l.foldl next b) := by
  induction l generalizing b with
  | nil => rfl
  | cons a rest ih => rw [List.foldlM_cons, h, ok_bind, ih, List.foldl_cons]

theorem pure_eq_ok {a b : α} : (pure a : Except ε α) = .ok b ↔ a = b := by
  simp [pure, Except.pure]

end Mailgrid
