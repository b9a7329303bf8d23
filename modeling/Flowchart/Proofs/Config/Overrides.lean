/-
Settings from environment variables. What a variable may say is stated without its reader: a limit is
nothing, `none` or a number of 64 bits (`LimitText`), a flag one of eight words (`FlagText`), each with white
space around it and in any letter case. Overriding fails at the first variable that says something
else, and otherwise changes each setting that has a variable and no other (`Overridden`). So one layer
of overrides on top of another is a single layer.
-/
import Flowchart.Config.Overrides
import Flowchart.Proofs.Lists
import Flowchart.Proofs.Numerals

namespace Flowchart

/-! ## Words -/

namespace Text

/-- The text is the word with white space around it. -/
def Padded (text : String) (word : List Char) : Prop :=
  ∃ before after, text.toList = before ++ word ++ after ∧ (∀ c ∈ before, isBlank c = true) ∧
    ∀ c ∈ after, isBlank c = true

theorem padded_trimChars (text : String) : Padded text (trimChars text.toList) :=
  exists_eq_append_trimChars text.toList

theorem Padded.trimChars_eq {text : String} {word : List Char} (h : Padded text word)
    (hword : ∀ c ∈ word, isBlank c = false) : trimChars text.toList = word := by
  obtain ⟨before, after, htext, hbefore, hafter⟩ := h
  rw [htext, trimChars_append hbefore hword hafter]

/-- A character that is not a capital is the small letter of itself and of its capital. -/
theorem toLower_eq_iff {c d : Char} (hd : d.isUpper = false) : c.toLower = d ↔ c = d ∨ c = d.toUpper := by
  have ha : 'a'.val.toNat = 97 := by decide
  have hz : 'z'.val.toNat = 122 := by decide
  have hA : 'A'.val.toNat = 65 := by decide
  have hZ : 'Z'.val.toNat = 90 := by decide
  simp only [Char.isUpper, decide_eq_false_iff_not, ge_iff_le, UInt32.le_iff_toNat_le, hA, hZ] at hd
  simp only [Char.toLower, Char.toUpper, ge_iff_le, UInt32.le_iff_toNat_le, Char.ext_iff, hA, hZ, ha, hz]
  split_ifs <;>
    simp only [← UInt32.toNat_inj, UInt32.toNat_add, UInt32.toNat_sub, hA, ha] <;>
    omega

/-- The characters are those of the word, each as a small letter or as a capital. -/
def AnyCase (word : String) (cs : List Char) : Prop :=
  List.Forall₂ (fun d c => c = d ∨ c = d.toUpper) word.toList cs

/-- A word without capitals and white space. -/
def isPlainWord (word : String) : Bool :=
  word.toList.all fun d => !d.isUpper && !isBlank d && !isBlank d.toUpper

theorem isPlainWord_iff {word : String} : isPlainWord word = true ↔
    ∀ d ∈ word.toList, d.isUpper = false ∧ isBlank d = false ∧ isBlank d.toUpper = false := by
  simp [isPlainWord, and_assoc]

theorem map_toLower_eq_iff {word : String} (h : isPlainWord word = true) {cs : List Char} :
    cs.map Char.toLower = word.toList ↔ AnyCase word cs := by
  rw [isPlainWord_iff] at h
  unfold AnyCase
  generalize word.toList = ds at h
  induction ds generalizing cs with
  | nil => simp
  | cons d ds ih =>
    obtain ⟨⟨hd, -⟩, hds⟩ := List.forall_mem_cons.1 h
    cases cs with
    | nil => simp
    | cons c cs => simp [toLower_eq_iff hd, ih hds]

theorem AnyCase.isBlank_eq_false {word : String} {cs : List Char} (hcs : AnyCase word cs)
    (h : isPlainWord word = true) : ∀ c ∈ cs, isBlank c = false := by
  rw [isPlainWord_iff] at h
  unfold AnyCase at hcs
  generalize word.toList = ds at h hcs
  induction hcs with
  | nil => exact List.forall_mem_nil _
  | cons hc _ ih =>
    obtain ⟨⟨-, hsmall, hcapital⟩, hds⟩ := List.forall_mem_cons.1 h
    refine List.forall_mem_cons.2 ⟨?_, ih hds⟩
    rcases hc with rfl | rfl
    exacts [hsmall, hcapital]

end Text

namespace Config

open Text

/-! ## Limits and flags -/

/-- The text of a limit: nothing, `none`, or a number of 64 bits with an optional plus sign. -/
inductive LimitText (raw : String) : Option Nat → Prop
  | blank (h : Padded raw []) : LimitText raw none
  | unlimited {word} (h : Padded raw word) (hword : AnyCase "none" word) : LimitText raw none
  | number {sign ds n} (h : Padded raw (sign ++ ds)) (hsign : sign = [] ∨ sign = ['+']) (hds : ds ≠ [])
      (hdigits : ∀ c ∈ ds, c.isDigit = true) (hvalue : Nat.ofDigitChars 10 ds 0 = n) (hn : n < 2 ^ 64) :
      LimitText raw (some n)

/-- The text of a flag: one of the words for yes or one of those for no. -/
inductive FlagText (raw : String) : Bool → Prop
  | yes {word cs} (h : Padded raw cs) (hword : word ∈ ["1", "true", "yes", "on"]) (hcs : AnyCase word cs) :
      FlagText raw true
  | no {word cs} (h : Padded raw cs) (hword : word ∈ ["0", "false", "no", "off"]) (hcs : AnyCase word cs) :
      FlagText raw false

/-- Digits are not white space, and neither is the sign in front of them. -/
theorem isBlank_numeral {sign ds : List Char} (hsign : sign = [] ∨ sign = ['+'])
    (hdigits : ∀ c ∈ ds, c.isDigit = true) : ∀ c ∈ sign ++ ds, isBlank c = false := by
  intro c hc
  rcases List.mem_append.1 hc with hc | hc
  · rcases hsign with rfl | rfl
    · cases hc
    · rw [List.mem_singleton.1 hc]
      decide
  · exact isBlank_of_isAlphanum (by simp [Char.isAlphanum, hdigits c hc])

/-- Digits are no letters. -/
theorem map_toLower_numeral_ne {sign ds : List Char} (hds : ds ≠ [])
    (hdigits : ∀ c ∈ ds, c.isDigit = true) : (sign ++ ds).map Char.toLower ≠ ['n', 'o', 'n', 'e'] := by
  intro h
  obtain ⟨c, hc⟩ := List.exists_mem_of_ne_nil ds hds
  have hrange : 48 ≤ c.toNat ∧ c.toNat ≤ 57 := Char.isDigit_iff_toNat.1 (hdigits c hc)
  have hletter : c.toLower ∈ ['n', 'o', 'n', 'e'] := h ▸ List.mem_map_of_mem (List.mem_append_right sign hc)
  simp only [List.mem_cons, List.not_mem_nil, or_false] at hletter
  rcases hletter with h | h | h | h <;>
    rcases (toLower_eq_iff (by decide)).1 h with rfl | rfl <;>
    exact absurd hrange (by decide)

theorem readLimit?_eq_some_iff {raw : String} {l : Option Nat} :
    readLimit? raw = some l ↔ LimitText raw l := by
  have hnone : isPlainWord "none" = true := by decide
  constructor
  · intro h
    have hpadded := padded_trimChars raw
    simp only [readLimit?] at h
    generalize trimChars raw.toList = cs at h hpadded
    split at h
    next hword =>
      cases h
      rw [Bool.or_eq_true, List.isEmpty_iff, beq_iff_eq] at hword
      rcases hword with rfl | hword
      · exact .blank hpadded
      · exact .unlimited hpadded ((map_toLower_eq_iff hnone).1 hword)
    next =>
      obtain ⟨n, hn, rfl⟩ := Option.map_eq_some_iff.1 h
      obtain ⟨sign, ds, rfl, hsign, hds, hdigits, hvalue, hlt⟩ := unsigned?_eq_some_iff.1 hn
      exact .number hpadded hsign hds hdigits hvalue hlt
  · rintro (h | ⟨h, hword⟩ | @⟨sign, ds, n, h, hsign, hds, hdigits, hvalue, hn⟩)
    · rw [readLimit?, h.trimChars_eq (List.forall_mem_nil _)]
      rfl
    · have hletters : _ = ['n', 'o', 'n', 'e'] := (map_toLower_eq_iff hnone).2 hword
      simp [readLimit?, h.trimChars_eq (hword.isBlank_eq_false hnone), hletters]
    · have hnumber : unsigned? (Nat.pow 2 64) (sign ++ ds) = some n :=
        unsigned?_eq_some_iff.2 ⟨sign, ds, rfl, hsign, hds, hdigits, hvalue, hn⟩
      have hletters : (sign ++ ds).map Char.toLower ≠ ['n', 'o', 'n', 'e'] := map_toLower_numeral_ne hds hdigits
      simp only [readLimit?, h.trimChars_eq (isBlank_numeral hsign hdigits), Bool.or_eq_true,
        List.isEmpty_iff, List.append_eq_nil_iff, hds, and_false, beq_iff_eq, hletters, or_self, if_false,
        hnumber, Option.map_some]

theorem ofList_map_toLower_eq_iff {word : String} (h : isPlainWord word = true) {cs : List Char} :
    String.ofList (cs.map Char.toLower) = word ↔ AnyCase word cs := by
  rw [← map_toLower_eq_iff h, ← String.toList_inj, String.toList_ofList]

theorem readFlag?_eq_some_iff {raw : String} {b : Bool} : readFlag? raw = some b ↔ FlagText raw b := by
  have hyes : ∀ word ∈ ["1", "true", "yes", "on"], isPlainWord word = true := by decide
  have hno : ∀ word ∈ ["0", "false", "no", "off"], isPlainWord word = true := by decide
  have hapart : ∀ word ∈ ["0", "false", "no", "off"], word ∉ ["1", "true", "yes", "on"] := by decide
  constructor
  · intro h
    have hpadded := padded_trimChars raw
    simp only [readFlag?] at h
    generalize trimChars raw.toList = cs at h hpadded
    split at h
    next hword =>
      cases h
      exact .yes hpadded hword ((ofList_map_toLower_eq_iff (hyes _ hword)).1 rfl)
    next =>
      split at h
      next hword =>
        cases h
        exact .no hpadded hword ((ofList_map_toLower_eq_iff (hno _ hword)).1 rfl)
      next => cases h
  · rintro (⟨h, hword, hcs⟩ | ⟨h, hword, hcs⟩)
    · have hplain := hyes _ hword
      simp only [readFlag?, h.trimChars_eq (hcs.isBlank_eq_false hplain),
        (ofList_map_toLower_eq_iff hplain).2 hcs, hword, if_true]
    · have hplain := hno _ hword
      have hother := hapart _ hword
      simp only [readFlag?, h.trimChars_eq (hcs.isBlank_eq_false hplain),
        (ofList_map_toLower_eq_iff hplain).2 hcs, hother, hword, if_true, if_false]

/-! ## Overriding -/

/-- Whether a key is for a limit; the other keys are for flags. -/
def isLimitKey (key : String) : Bool := key = stepBudgetKey || key = maxContinuationsKey

/-- What a key asks for. -/
def expectation (key : String) : String :=
  if isLimitKey key then "a non-negative integer or `none`" else "a boolean"

/-- The text is one that the key can be set to. -/
def Readable (key raw : String) : Prop :=
  if isLimitKey key then ∃ l, LimitText raw l else ∃ b, FlagText raw b

/-- The key is set to a text that it cannot be set to. -/
def Unreadable (lookup : String → Option String) (key raw : String) : Prop :=
  lookup key = some raw ∧ ¬Readable key raw

/-- The error names the first key, in the order of the keys, that is set to a text it cannot be set to. -/
structure FirstUnreadable (lookup : String → Option String) (e : InvalidSetting) : Prop where
  unreadable : Unreadable lookup e.key e.value
  first : ∃ before after, overrideKeys = before ++ e.key :: after ∧
    ∀ key ∈ before, ∀ raw, ¬Unreadable lookup key raw
  expected : e.expected = expectation e.key

/-- A setting and what becomes of it: it is what the text says, and without a text it stays. -/
inductive Settles {α : Type} (Text : String → α → Prop) : Option String → α → α → Prop
  | kept {a} : Settles Text none a a
  | set {raw old new} (h : Text raw new) : Settles Text (some raw) old new

/-- Each setting that `lookup` finds is what its text says, and the others are as they were. -/
structure Overridden (lookup : String → Option String) (c c' : Config) : Prop where
  stepBudget : Settles LimitText (lookup stepBudgetKey) c.stepBudget c'.stepBudget
  maxContinuations : Settles LimitText (lookup maxContinuationsKey) c.maxContinuations c'.maxContinuations
  recordTrace : Settles FlagText (lookup recordTraceKey) c.recordTrace c'.recordTrace
  allowFanOut : Settles FlagText (lookup allowFanOutKey) c.allowFanOut c'.allowFanOut

section
variable {f g : String → Option String} {c c' c'' : Config} {key : String}

theorem override_eq_ok_iff {α : Type} {expected : String} {read? : String → Option α}
    {Text : String → α → Prop} (hread : ∀ {raw a}, read? raw = some a ↔ Text raw a) {old new : α} :
    override f key expected read? old = .ok new ↔ Settles Text (f key) old new := by
  cases hkey : f key with
  | none =>
    simp only [override, hkey, Except.ok.injEq]
    constructor
    · rintro rfl
      exact .kept
    · rintro ⟨⟩
      rfl
  | some raw =>
    simp only [override, hkey]
    constructor
    · intro h
      split at h
      next a ha =>
        cases h
        exact .set (hread.1 ha)
      next => cases h
    · rintro (_ | ⟨h⟩)
      simp only [hread.2 h]

theorem withOverrides_eq_ok_iff : c.withOverrides f = .ok c' ↔ Overridden f c c' := by
  simp only [withOverrides, bind_eq_ok_iff, override_eq_ok_iff readLimit?_eq_some_iff,
    override_eq_ok_iff readFlag?_eq_some_iff]
  constructor
  · rintro ⟨_, hbudget, _, hcontinuations, _, htrace, _, hfan, ⟨⟩⟩
    exact ⟨hbudget, hcontinuations, htrace, hfan⟩
  · rintro ⟨hbudget, hcontinuations, htrace, hfan⟩
    exact ⟨_, hbudget, _, hcontinuations, _, htrace, _, hfan, rfl⟩

/-- Whether the reader of a key takes the text. -/
def reads (key raw : String) : Bool :=
  if isLimitKey key then (readLimit? raw).isSome else (readFlag? raw).isSome

theorem reads_iff {raw : String} : reads key raw = true ↔ Readable key raw := by
  unfold reads Readable
  split <;> simp [Option.isSome_iff_exists, readLimit?_eq_some_iff, readFlag?_eq_some_iff]

/-- The error that a key gives, if it is set to a text that its reader does not take. -/
def fault? (lookup : String → Option String) (key : String) : Option InvalidSetting :=
  (lookup key).bind fun raw => if reads key raw then none else some ⟨key, raw, expectation key⟩

theorem fault?_eq_some_iff {e : InvalidSetting} : fault? f key = some e ↔
    key = e.key ∧ Unreadable f e.key e.value ∧ e.expected = expectation e.key := by
  obtain ⟨k, raw, expected⟩ := e
  simp only [fault?, Option.bind_eq_some_iff, Option.ite_none_left_eq_some, reads_iff, Option.some.injEq,
    InvalidSetting.mk.injEq, Unreadable]
  constructor
  · rintro ⟨_, hset, hread, rfl, rfl, rfl⟩
    exact ⟨rfl, ⟨hset, hread⟩, rfl⟩
  · rintro ⟨rfl, ⟨hset, hread⟩, rfl⟩
    exact ⟨raw, hset, hread, rfl, rfl, rfl⟩

theorem fault?_eq_none_iff : fault? f key = none ↔ ∀ raw, ¬Unreadable f key raw := by
  simp only [fault?, Option.bind_eq_none_iff, Unreadable, ← reads_iff]
  refine forall_congr' fun raw => ?_
  by_cases h : reads key raw <;> simp [h]

section
variable {α : Type} {read? : String → Option α} (hread : ∀ raw, reads key raw = (read? raw).isSome) {old : α}

include hread

/-- Overriding one setting fails with the error that its key gives. -/
theorem override_of_fault? {e : InvalidSetting} (h : fault? f key = some e) :
    override f key (expectation key) read? old = .error e := by
  cases hkey : f key with
  | none => simp [fault?, hkey] at h
  | some raw =>
    cases hraw : read? raw with
    | none => simpa [override, fault?, hkey, hread, hraw] using h
    | some a => simp [fault?, hkey, hread, hraw] at h

theorem exists_override_eq_ok (h : fault? f key = none) :
    ∃ a, override f key (expectation key) read? old = .ok a := by
  cases hkey : f key with
  | none => exact ⟨old, by simp [override, hkey]⟩
  | some raw =>
    cases hraw : read? raw with
    | none => simp [fault?, hkey, hread, hraw] at h
    | some a => exact ⟨a, by simp [override, hkey, hraw]⟩

/-- Settings are overridden one by one, and the first key that gives an error decides. -/
theorem override_bind_eq_error_iff {next : α → Except InvalidSetting Config} {keys : List String}
    {e : InvalidSetting} (hnext : ∀ a, next a = .error e ↔ keys.findSome? (fault? f) = some e) :
    override f key (expectation key) read? old >>= next = .error e ↔
      (key :: keys).findSome? (fault? f) = some e := by
  rw [List.findSome?_cons]
  cases hfault : fault? f key with
  | some e' =>
    rw [override_of_fault? hread hfault]
    simp [bind, Except.bind]
  | none =>
    obtain ⟨a, ha⟩ : ∃ a, override f key (expectation key) read? old = .ok a := exists_override_eq_ok hread hfault
    rw [ha]
    exact hnext a

end

theorem withOverrides_eq_error_iff_findSome? {e : InvalidSetting} :
    c.withOverrides f = .error e ↔ overrideKeys.findSome? (fault? f) = some e :=
  override_bind_eq_error_iff (fun _ => rfl) fun _ => override_bind_eq_error_iff (fun _ => rfl) fun _ =>
    override_bind_eq_error_iff (fun _ => rfl) fun _ => override_bind_eq_error_iff (fun _ => rfl) fun _ =>
      ⟨fun h => (by cases h), fun h => (by cases h)⟩

theorem withOverrides_eq_error_iff {e : InvalidSetting} :
    c.withOverrides f = .error e ↔ FirstUnreadable f e := by
  rw [withOverrides_eq_error_iff_findSome?, List.findSome?_eq_some_iff]
  constructor
  · rintro ⟨before, key, after, hkeys, hfault, hbefore⟩
    obtain ⟨rfl, hunreadable, hexpected⟩ := fault?_eq_some_iff.1 hfault
    have hfirst (key : String) (hkey : key ∈ before) := fault?_eq_none_iff.1 (hbefore key hkey)
    exact ⟨hunreadable, ⟨before, after, hkeys, hfirst⟩, hexpected⟩
  · rintro ⟨hunreadable, ⟨before, after, hkeys, hbefore⟩, hexpected⟩
    exact ⟨before, e.key, after, hkeys, fault?_eq_some_iff.2 ⟨rfl, hunreadable, hexpected⟩,
      fun key hkey => fault?_eq_none_iff.2 (hbefore key hkey)⟩

/-- Overriding fails exactly if some key is set to a text that it cannot be set to. -/
theorem exists_withOverrides_eq_error_iff :
    (∃ e, c.withOverrides f = .error e) ↔ ∃ key ∈ overrideKeys, ∃ raw, Unreadable f key raw := by
  have hfault (key : String) : (fault? f key).isSome = true ↔ ∃ raw, Unreadable f key raw := by
    rw [Option.isSome_iff_ne_none, Ne, fault?_eq_none_iff]
    push Not
    rfl
  simp only [withOverrides_eq_error_iff_findSome?, ← Option.isSome_iff_exists, List.findSome?_isSome_iff, hfault]

theorem Settles.trans {α : Type} {Text : String → α → Prop} {raw raw' : Option String} {old mid new : α}
    (h : Settles Text raw old mid) (h' : Settles Text raw' mid new) : Settles Text (raw'.or raw) old new := by
  cases h' with
  | kept => exact h
  | set h' => exact .set h'

/-- Overrides on top of overrides are overrides, where the upper ones come first. -/
theorem Overridden.trans (h : Overridden f c c') (h' : Overridden g c' c'') :
    Overridden (fun key => (g key).or (f key)) c c'' where
  stepBudget := h.stepBudget.trans h'.stepBudget
  maxContinuations := h.maxContinuations.trans h'.maxContinuations
  recordTrace := h.recordTrace.trans h'.recordTrace
  allowFanOut := h.allowFanOut.trans h'.allowFanOut

end

end Config

end Flowchart
