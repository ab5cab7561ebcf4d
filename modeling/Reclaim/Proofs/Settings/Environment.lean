import Mathlib.Data.Fintype.Defs
import Reclaim.Proofs.Settings.Text
import Reclaim.Settings.Environment

/-!
# Overrides from the environment

What a list of variables makes of settings is told field by field. `Addresses` says which field the
name of a variable means, `Overrides` that its value is one that this field can take, and `Faulty`
that it must be refused, and with which error; one variable does what the three say
(`applyVariable_cases`). `Overridden` says of settings beside those before what a whole list has
changed. Variables that address different fields make settings that are `Overridden`
(`overridden_of_applyEnvironment`), and there is only one such result (`Overridden.unique`), so the
order of the variables does not matter: `applyEnvironment_exact`.
-/

namespace Reclaim

/-! ## Fields -/

/-- There are finitely many fields. -/
instance : Fintype Field where
  elems := ⟨Field.all, by decide⟩
  complete f := by cases f <;> decide

/-- The name of a field behind the prefix: that of its table and its own, with a double underscore
between them. -/
def Field.path (f : Field) : List Char := f.table.key.toList ++ ['_', '_'] ++ f.key.toList

/-- A table is found under its own name only. -/
theorem SettingsTable.ofKey?_eq_some_iff {key : String} {t : SettingsTable} :
    ofKey? key = some t ↔ key = t.key := by
  unfold ofKey?
  constructor
  · intro h
    have hfound := List.find?_some h
    rw [decide_eq_true_iff] at hfound
    exact hfound.symm
  · rintro rfl
    cases t <;> decide

/-- A field is found in its own table under its own name only. -/
theorem Field.ofKey?_eq_some_iff {t : SettingsTable} {key : String} {f : Field} :
    ofKey? t key = some f ↔ f.table = t ∧ key = f.key := by
  unfold ofKey?
  constructor
  · intro h
    have hfound := List.find?_some h
    rw [Bool.and_eq_true, decide_eq_true_iff, decide_eq_true_iff] at hfound
    exact ⟨hfound.1, hfound.2.symm⟩
  · rintro ⟨rfl, rfl⟩
    cases f <;> decide

/-- A path, in any case, addresses the field whose name it is, and no other. -/
theorem Field.ofPath?_eq_some_iff {path : List Char} {f : Field} :
    ofPath? path = some f ↔ Text.lower path = f.path := by
  unfold ofPath?
  constructor
  · intro h
    have hjoin := (Text.intercalate_splitName (Text.lower path)).2
    split at h
    · next table key hsplit =>
      obtain ⟨t, ht, hf⟩ := Option.bind_eq_some_iff.mp h
      obtain ⟨rfl, hkey⟩ := ofKey?_eq_some_iff.mp hf
      rw [hsplit] at hjoin
      unfold Field.path
      rw [← hkey, ← SettingsTable.ofKey?_eq_some_iff.mp ht, String.toList_ofList,
        String.toList_ofList, ← hjoin]
      simp [List.intercalate, List.intersperse]
    · exact absurd h.symm (Option.some_ne_none f)
  · intro h
    rw [h]
    cases f <;> decide

/-- Different fields have different paths. -/
theorem Field.path_injective : Function.Injective Field.path := by
  have hlower : ∀ f : Field, Text.lower f.path = f.path := by decide
  intro f g h
  have hf := ofPath?_eq_some_iff.mpr (hlower f)
  have hg := ofPath?_eq_some_iff.mpr (hlower g)
  rw [h] at hf
  exact Option.some_inj.mp (hf.symm.trans hg)

namespace Settings

/-- Whether settings have a table. -/
def Has (s : Settings) : SettingsTable → Prop
  | .area => s.area.isSome
  | .background => s.background.isSome

/-- Setting a field leaves the others alone. -/
theorem get?_set (s : Settings) (f g : Field) (n : ℕ) :
    (s.set f n).get? g = if g = f then some n else s.get? g := by
  obtain ⟨_ | a, _ | b⟩ := s <;> cases f <;> cases g <;> rfl

/-- Setting a field makes its table present. -/
theorem has_set (s : Settings) (f : Field) (n : ℕ) (t : SettingsTable) :
    (s.set f n).Has t ↔ s.Has t ∨ t = f.table := by
  obtain ⟨_ | a, _ | b⟩ := s <;> cases f <;> cases t <;> simp [set, Has, Field.table]

/-- Settings with the same tables and the same fields are the same. -/
theorem ext_get? {s s' : Settings} (hhas : ∀ t, s.Has t ↔ s'.Has t)
    (hget : ∀ f, s.get? f = s'.get? f) : s = s' := by
  obtain ⟨area, background⟩ := s
  obtain ⟨area', background'⟩ := s'
  have harea : area = area' := by
    have hsome := hhas .area
    cases area <;> cases area'
    · rfl
    · exact absurd (hsome.mpr rfl) Bool.false_ne_true
    · exact absurd (hsome.mp rfl) Bool.false_ne_true
    · exact congrArg some ((AreaSettings.mk.injEq ..).mpr ⟨hget .segmentBits,
        hget .segmentsPerSection, hget .segments, hget .mainStart, hget .reserved,
        hget .searchLimit⟩)
  have hbackground : background = background' := by
    have hsome := hhas .background
    cases background <;> cases background'
    · rfl
    · exact absurd (hsome.mpr rfl) Bool.false_ne_true
    · exact absurd (hsome.mp rfl) Bool.false_ne_true
    · exact congrArg some ((PacingSettings.mk.injEq ..).mpr ⟨hget .minSleep, hget .maxSleep,
        hget .idleSleep, hget .invalidPct, hget .freePct⟩)
  rw [harea, hbackground]

/-! ## One variable -/

/-- Whether the name of a variable begins with the prefix. -/
def Prefixed (name : String) : Prop := variablePrefix.toList <+: name.toList

/-- Whether a name begins with the prefix can be decided. -/
instance (name : String) : Decidable (Prefixed name) := inferInstanceAs (Decidable (_ <+: _))

/-- Whether the name of a variable addresses a field: behind the prefix it is, in any case, the path
of the field. -/
def Addresses (name : String) (f : Field) : Prop :=
  ∃ path, name.toList = variablePrefix.toList ++ path ∧ Text.lower path = f.path

/-- Whether a variable gives a field a value: its name addresses the field, and its value, without
the blanks around it, is a number of the width of the field. -/
def Overrides (v : String × String) (f : Field) (n : ℕ) : Prop :=
  Addresses v.1 f ∧ Text.Reads f.bits v.2.toList n

/-- What a variable must be refused for. -/
inductive Faulty (v : String × String) : SettingsError → Prop where
  /-- The name begins with the prefix but addresses no field. -/
  | unknown (hlead : Prefixed v.1) (hnone : ∀ f, ¬Addresses v.1 f) : Faulty v (.unknownKey v.1)
  /-- The value is no number of the width of the field. -/
  | invalid {f : Field} (hf : Addresses v.1 f) (hnone : ∀ n, ¬Text.Reads f.bits v.2.toList n) :
    Faulty v (.invalidValue v.1 (String.ofList (Text.trim v.2.toList)))

/-- A name that addresses a field begins with the prefix. -/
theorem Addresses.prefixed {name : String} {f : Field} (h : Addresses name f) : Prefixed name := by
  obtain ⟨path, hname, -⟩ := h
  exact ⟨path, hname.symm⟩

/-- A name addresses one field at most. -/
theorem Addresses.unique {name : String} {f g : Field} (hf : Addresses name f)
    (hg : Addresses name g) : f = g := by
  obtain ⟨path, hname, hpath⟩ := hf
  obtain ⟨path', hname', hpath'⟩ := hg
  obtain rfl := List.append_cancel_left (hname.symm.trans hname')
  exact Field.path_injective (hpath.symm.trans hpath')

/-- A variable gives one field one value at most. -/
theorem Overrides.unique {v : String × String} {f g : Field} {n m : ℕ} (h : Overrides v f n)
    (h' : Overrides v g m) : f = g ∧ n = m := by
  obtain rfl := h.1.unique h'.1
  have hn := Text.unsigned?_trim.mpr h.2
  exact ⟨rfl, Option.some_inj.mp (hn.symm.trans (Text.unsigned?_trim.mpr h'.2))⟩

/-- Which field a name addresses can be computed. -/
theorem addresses_iff {name : String} {f : Field} : Addresses name f ↔
    (Text.behind? variablePrefix.toList name.toList).bind Field.ofPath? = some f := by
  rw [Option.bind_eq_some_iff]
  simp only [Text.behind?_eq_some_iff, Field.ofPath?_eq_some_iff]
  rfl

/-- Whether a name addresses a field can be decided. -/
instance (name : String) (f : Field) : Decidable (Addresses name f) :=
  decidable_of_iff _ addresses_iff.symm

/-- Whether a variable gives a field a value can be decided. -/
instance (v : String × String) (f : Field) (n : ℕ) : Decidable (Overrides v f n) :=
  inferInstanceAs (Decidable (_ ∧ _))

/-- Every variable is passed over, overrides a field, or is faulty, and what it does is told by
which. -/
theorem applyVariable_cases (s : Settings) (v : String × String) :
    (¬Prefixed v.1 ∧ s.applyVariable v.1 v.2 = .ok s) ∨
      (∃ f n, Overrides v f n ∧ s.applyVariable v.1 v.2 = .ok (s.set f n)) ∨
      ∃ e, Faulty v e ∧ s.applyVariable v.1 v.2 = .error e := by
  unfold applyVariable
  cases hbehind : Text.behind? variablePrefix.toList v.1.toList with
  | none =>
    refine .inl ⟨?_, rfl⟩
    rintro ⟨path, hname⟩
    rw [Text.behind?_eq_some_iff.mpr hname.symm] at hbehind
    exact Option.some_ne_none path hbehind
  | some path =>
    have hname := Text.behind?_eq_some_iff.mp hbehind
    refine .inr ?_
    dsimp only
    cases hpath : Field.ofPath? path with
    | none =>
      refine .inr ⟨_, .unknown ⟨path, hname.symm⟩ fun f hf => ?_, rfl⟩
      rw [addresses_iff, hbehind, Option.bind_some, hpath] at hf
      exact Option.some_ne_none f hf.symm
    | some f =>
      have hf : Addresses v.1 f := ⟨path, hname, Field.ofPath?_eq_some_iff.mp hpath⟩
      dsimp only
      cases hvalue : Text.unsigned? f.bits (Text.trim v.2.toList) with
      | none =>
        refine .inr ⟨_, .invalid hf fun n hn => ?_, rfl⟩
        rw [Text.unsigned?_trim.mpr hn] at hvalue
        exact Option.some_ne_none n hvalue
      | some n => exact .inl ⟨f, n, ⟨hf, Text.unsigned?_trim.mp hvalue⟩, rfl⟩

/-- A variable that gives a field a value is not faulty. -/
theorem Overrides.not_faulty {v : String × String} {f : Field} {n : ℕ} (h : Overrides v f n)
    (e : SettingsError) : ¬Faulty v e := by
  rintro (⟨-, hnone⟩ | ⟨hg, hnone⟩)
  · exact hnone f h.1
  · obtain rfl := h.1.unique hg
    exact hnone n h.2

/-- A faulty variable begins with the prefix. -/
theorem Faulty.prefixed {v : String × String} {e : SettingsError} (h : Faulty v e) :
    Prefixed v.1 := by
  cases h with
  | unknown hlead _ => exact hlead
  | invalid hf _ => exact hf.prefixed

/-- A variable is faulty in one way at most. -/
theorem Faulty.unique {v : String × String} {e e' : SettingsError} (h : Faulty v e)
    (h' : Faulty v e') : e = e' := by
  cases h with
  | unknown _ hnone =>
    cases h' with
    | unknown => rfl
    | invalid hf _ => exact absurd hf (hnone _)
  | invalid hf _ =>
    cases h' with
    | unknown _ hnone => exact absurd hf (hnone _)
    | invalid => rfl

/-- A variable with a foreign name changes nothing. -/
theorem applyVariable_of_not_prefixed (s : Settings) {v : String × String} (h : ¬Prefixed v.1) :
    s.applyVariable v.1 v.2 = .ok s := by
  obtain ⟨-, hs⟩ | ⟨f, n, hv, -⟩ | ⟨e, hv, -⟩ := s.applyVariable_cases v
  · exact hs
  · exact absurd hv.1.prefixed h
  · exact absurd hv.prefixed h

/-! ## Lists of variables -/

/-- Settings `s'` that differ from `s` in what the variables override, and in nothing else. -/
structure Overridden (s : Settings) (vars : List (String × String)) (s' : Settings) : Prop where
  /-- A field that is overridden has the value of the variable. -/
  set : ∀ v ∈ vars, ∀ f n, Overrides v f n → s'.get? f = some n
  /-- A field that is not addressed has its value from before. -/
  kept : ∀ f, (∀ v ∈ vars, ¬Addresses v.1 f) → s'.get? f = s.get? f
  /-- A table is present when it was or when one of its fields is addressed. -/
  has : ∀ t, s'.Has t ↔ s.Has t ∨ ∃ v ∈ vars, ∃ f, Addresses v.1 f ∧ f.table = t

/-- There is one result when every variable with the prefix gives a field a value. -/
theorem Overridden.unique {s s₁ s₂ : Settings} {vars : List (String × String)}
    (hvars : ∀ v ∈ vars, Prefixed v.1 → ∃ f n, Overrides v f n) (h₁ : s.Overridden vars s₁)
    (h₂ : s.Overridden vars s₂) : s₁ = s₂ := by
  refine ext_get? (fun t => (h₁.has t).trans (h₂.has t).symm) fun f => ?_
  by_cases hf : ∃ v ∈ vars, Addresses v.1 f
  · obtain ⟨v, hv, haddress⟩ := hf
    obtain ⟨g, n, hover⟩ := hvars v hv haddress.prefixed
    obtain rfl := haddress.unique hover.1
    rw [h₁.set v hv f n hover, h₂.set v hv f n hover]
  · have hnone : ∀ v ∈ vars, ¬Addresses v.1 f := fun v hv haddress => hf ⟨v, hv, haddress⟩
    rw [h₁.kept f hnone, h₂.kept f hnone]

/-- What a list of variables makes does not depend on their order. -/
theorem Overridden.perm {s s' : Settings} {vars vars' : List (String × String)}
    (h : s.Overridden vars s') (hperm : vars'.Perm vars) : s.Overridden vars' s' where
  set v hv := h.set v (hperm.mem_iff.mp hv)
  kept f hf := h.kept f fun v hv => hf v (hperm.mem_iff.mpr hv)
  has t := by
    rw [h.has t]
    simp only [hperm.mem_iff]

/-- A variable that addresses no field adds nothing. -/
theorem Overridden.pass {s s' : Settings} {v : String × String} {vars : List (String × String)}
    (h : s.Overridden vars s') (hv : ∀ f, ¬Addresses v.1 f) : s.Overridden (v :: vars) s' where
  set w hw f n hover := by
    obtain rfl | hw := List.mem_cons.mp hw
    · exact absurd hover.1 (hv f)
    · exact h.set w hw f n hover
  kept f hf := h.kept f fun w hw => hf w (List.mem_cons_of_mem v hw)
  has t := by
    rw [h.has t]
    simp only [List.mem_cons, exists_eq_or_imp, hv, false_and, exists_false, false_or]

/-- A variable that overrides a field adds this field, which the variables behind it leave alone. -/
theorem Overridden.override {s s' : Settings} {v : String × String}
    {vars : List (String × String)} {f : Field} {n : ℕ} (h : (s.set f n).Overridden vars s')
    (hv : Overrides v f n) (hvars : ∀ w ∈ vars, ¬Addresses w.1 f) :
    s.Overridden (v :: vars) s' where
  set w hw g m hover := by
    obtain rfl | hw := List.mem_cons.mp hw
    · obtain ⟨rfl, rfl⟩ := hv.unique hover
      rw [h.kept f hvars, get?_set, if_pos rfl]
    · exact h.set w hw g m hover
  kept g hg := by
    have hne : g ≠ f := by
      rintro rfl
      exact hg v List.mem_cons_self hv.1
    rw [h.kept g fun w hw => hg w (List.mem_cons_of_mem v hw), get?_set, if_neg hne]
  has t := by
    have hfield : (∃ g, Addresses v.1 g ∧ g.table = t) ↔ t = f.table := by
      constructor
      · rintro ⟨g, hg, rfl⟩
        rw [hg.unique hv.1]
      · rintro rfl
        exact ⟨f, hv.1, rfl⟩
    simp only [h.has t, has_set, List.mem_cons, exists_eq_or_imp, hfield, or_assoc]

/-- Whether no two variables address the same field. -/
def Apart (vars : List (String × String)) : Prop :=
  vars.Pairwise fun v w => ∀ f, Addresses v.1 f → ¬Addresses w.1 f

/-- Whether variables address different fields can be decided. -/
instance (vars : List (String × String)) : Decidable (Apart vars) :=
  inferInstanceAs (Decidable (List.Pairwise _ vars))

/-- Whether variables address different fields does not depend on their order. -/
theorem Apart.perm {vars vars' : List (String × String)} (h : Apart vars)
    (hperm : vars'.Perm vars) : Apart vars' :=
  List.Pairwise.perm h hperm.symm fun hvw f hw hv => hvw f hv hw

/-- A variable that is applied leaves the rest of the list to be applied. -/
theorem applyEnvironment_cons_ok {s s' : Settings} {v : String × String}
    (vars : List (String × String)) (h : s.applyVariable v.1 v.2 = .ok s') :
    s.applyEnvironment (v :: vars) = s'.applyEnvironment vars := by
  rw [applyEnvironment, h]

/-- A variable that is refused ends the list. -/
theorem applyEnvironment_cons_error {s : Settings} {v : String × String} {e : SettingsError}
    (vars : List (String × String)) (h : s.applyVariable v.1 v.2 = .error e) :
    s.applyEnvironment (v :: vars) = .error e := by
  rw [applyEnvironment, h]

/-- Variables of which each gives a field of its own a value, or has a foreign name, are applied,
and override just these fields. -/
theorem overridden_of_applyEnvironment (s : Settings) {vars : List (String × String)}
    (hapart : Apart vars) (hvars : ∀ v ∈ vars, Prefixed v.1 → ∃ f n, Overrides v f n) :
    ∃ s', s.applyEnvironment vars = .ok s' ∧ s.Overridden vars s' := by
  induction vars generalizing s with
  | nil => exact ⟨s, rfl, nofun, fun _ _ => rfl, fun t => by simp⟩
  | cons v vars ih =>
    obtain ⟨hfirst, hrest⟩ := List.pairwise_cons.mp hapart
    have hvars' : ∀ w ∈ vars, Prefixed w.1 → ∃ f n, Overrides w f n := fun w hw =>
      hvars w (List.mem_cons_of_mem v hw)
    obtain ⟨hforeign, hs⟩ | ⟨f, n, hover, hs⟩ | ⟨e, hfaulty, -⟩ := s.applyVariable_cases v
    · obtain ⟨s', hrun, hresult⟩ := ih s hrest hvars'
      exact ⟨s', (applyEnvironment_cons_ok vars hs).trans hrun,
        hresult.pass fun f hf => hforeign hf.prefixed⟩
    · obtain ⟨s', hrun, hresult⟩ := ih (s.set f n) hrest hvars'
      exact ⟨s', (applyEnvironment_cons_ok vars hs).trans hrun,
        hresult.override hover fun w hw => hfirst w hw f hover.1⟩
    · obtain ⟨f, n, hover⟩ := hvars v List.mem_cons_self hfaulty.prefixed
      exact absurd hfaulty (hover.not_faulty e)

/-- A list with a faulty variable is refused for the fault of it when no other variable is
faulty. -/
theorem applyEnvironment_of_faulty (s : Settings) {vars : List (String × String)}
    {v : String × String} {e : SettingsError} (hv : v ∈ vars) (hfaulty : Faulty v e)
    (hothers : ∀ w ∈ vars, ∀ e', Faulty w e' → e' = e) :
    s.applyEnvironment vars = .error e := by
  induction vars generalizing s with
  | nil => exact absurd hv List.not_mem_nil
  | cons w vars ih =>
    have hothers' : ∀ u ∈ vars, ∀ e', Faulty u e' → e' = e := fun u hu =>
      hothers u (List.mem_cons_of_mem w hu)
    obtain ⟨hforeign, hs⟩ | ⟨f, n, hover, hs⟩ | ⟨e', hw, hs⟩ := s.applyVariable_cases w
    · obtain rfl | hv := List.mem_cons.mp hv
      · exact absurd hfaulty.prefixed hforeign
      · exact (applyEnvironment_cons_ok vars hs).trans (ih s hv hothers')
    · obtain rfl | hv := List.mem_cons.mp hv
      · exact absurd hfaulty (hover.not_faulty e)
      · exact (applyEnvironment_cons_ok vars hs).trans (ih (s.set f n) hv hothers')
    · obtain rfl := hothers w List.mem_cons_self e' hw
      exact applyEnvironment_cons_error vars hs

/-- Variables with foreign names can be left out. -/
theorem applyEnvironment_filter (s : Settings) (vars : List (String × String)) :
    s.applyEnvironment (vars.filter fun v => Prefixed v.1) = s.applyEnvironment vars := by
  induction vars generalizing s with
  | nil => rfl
  | cons v vars ih =>
    by_cases hv : Prefixed v.1
    · have hkeep : decide (Prefixed v.1) = true := decide_eq_true hv
      rw [List.filter_cons, if_pos hkeep]
      cases hs : s.applyVariable v.1 v.2 with
      | ok s' => rw [applyEnvironment_cons_ok _ hs, applyEnvironment_cons_ok _ hs, ih]
      | error e => rw [applyEnvironment_cons_error _ hs, applyEnvironment_cons_error _ hs]
    · have hdrop : ¬decide (Prefixed v.1) = true := fun h => hv (of_decide_eq_true h)
      rw [List.filter_cons, if_neg hdrop, ih,
        applyEnvironment_cons_ok _ (s.applyVariable_of_not_prefixed hv)]

/-- Overrides from the environment are exact, and their order does not matter. Of variables that
address different fields, those without the prefix have no effect. If each of the others gives its
field a value, they are applied in any order with one result: these fields have the values of the
variables, the other fields are as before, and a table is present when it was or when one of its
fields is overridden. If just one variable is faulty, they are refused in any order with the same
error. -/
theorem applyEnvironment_exact (s : Settings) {vars : List (String × String)}
    (hapart : Apart vars) :
    ((∀ v ∈ vars, Prefixed v.1 → ∃ f n, Overrides v f n) →
      ∃ s', (∀ vars', vars'.Perm vars → s.applyEnvironment vars' = .ok s') ∧
        (∀ v ∈ vars, ∀ f n, Overrides v f n → s'.get? f = some n) ∧
        (∀ f, (∀ v ∈ vars, ¬Addresses v.1 f) → s'.get? f = s.get? f) ∧
        ∀ t, s'.Has t ↔ s.Has t ∨ ∃ v ∈ vars, ∃ f, Addresses v.1 f ∧ f.table = t) ∧
    (∀ front v back e, vars = front ++ v :: back → Faulty v e →
      (∀ w ∈ front ++ back, ∀ e', ¬Faulty w e') →
      ∀ vars', vars'.Perm vars → s.applyEnvironment vars' = .error e) ∧
    s.applyEnvironment (vars.filter fun v => Prefixed v.1) = s.applyEnvironment vars := by
  refine ⟨fun hvars => ?_, ?_, s.applyEnvironment_filter vars⟩
  · obtain ⟨s', hrun, hresult⟩ := s.overridden_of_applyEnvironment hapart hvars
    refine ⟨s', fun vars' hperm => ?_, hresult.set, hresult.kept, hresult.has⟩
    obtain ⟨s₁, hrun₁, hresult₁⟩ := s.overridden_of_applyEnvironment (hapart.perm hperm)
      fun v hv => hvars v (hperm.mem_iff.mp hv)
    rw [hrun₁, (hresult₁.perm hperm.symm).unique hvars hresult]
  · rintro front v back e rfl hfaulty hothers vars' hperm
    refine s.applyEnvironment_of_faulty (hperm.mem_iff.mpr (by simp)) hfaulty fun w hw e' hw' => ?_
    have hmem := hperm.mem_iff.mp hw
    rw [List.mem_append, List.mem_cons] at hmem
    obtain hfront | rfl | hback := hmem
    · exact absurd hw' (hothers w (List.mem_append_left back hfront) e')
    · exact hw'.unique hfaulty
    · exact absurd hw' (hothers w (List.mem_append_right front hback) e')

/-- Two overrides, with letters of both cases and blanks around a number, and another variable. -/
def threeVariables : List (String × String) :=
  [("F2FS_GC__SEGMENTS__Total_Segs", "48"), ("PATH", "/bin"),
    ("F2FS_GC__background__min_sleep_ms", " +07 ")]

/-- An override and a variable whose value is no number. -/
def oneFault : List (String × String) :=
  [("F2FS_GC__segments__total_segs", "48"), ("F2FS_GC__background__min_sleep_ms", " 7s ")]

/-- Two overrides are applied to settings that have one of the tables, and a value that is no number
is refused, in any order. -/
theorem applyEnvironment_exact_two :
    (∃ s' : Settings, (∀ vars', vars'.Perm threeVariables →
        applyEnvironment { background := some { freePct := some 30 } } vars' = .ok s') ∧
      s'.get? .segments = some 48 ∧ s'.get? .minSleep = some 7 ∧ s'.get? .freePct = some 30 ∧
      s'.Has .area) ∧
    ∀ vars', vars'.Perm oneFault → applyEnvironment {} vars' =
      .error (.invalidValue "F2FS_GC__background__min_sleep_ms" "7s") := by
  constructor
  · have hsegments : Overrides ("F2FS_GC__SEGMENTS__Total_Segs", "48") .segments 48 := by decide
    have hforeign : ¬Prefixed "PATH" := by decide
    have hsleep : Overrides ("F2FS_GC__background__min_sleep_ms", " +07 ") .minSleep 7 := by decide
    have hvars : ∀ v ∈ threeVariables, Prefixed v.1 → ∃ f n, Overrides v f n :=
      List.forall_mem_cons.mpr ⟨fun _ => ⟨_, _, hsegments⟩, List.forall_mem_cons.mpr
        ⟨fun h => absurd h hforeign, List.forall_mem_singleton.mpr fun _ => ⟨_, _, hsleep⟩⟩⟩
    have hmem : ("F2FS_GC__SEGMENTS__Total_Segs", "48") ∈ threeVariables ∧
      ("F2FS_GC__background__min_sleep_ms", " +07 ") ∈ threeVariables := by decide
    obtain ⟨s', hrun, hset, hkept, hhas⟩ :=
      (applyEnvironment_exact { background := some { freePct := some 30 } }
        (show Apart threeVariables by decide)).1 hvars
    exact ⟨s', hrun, hset _ hmem.1 _ _ hsegments, hset _ hmem.2 _ _ hsleep, hkept _ (by decide),
      (hhas _).mpr (.inr ⟨_, hmem.1, _, hsegments.1, rfl⟩)⟩
  · have hsegments : Overrides ("F2FS_GC__segments__total_segs", "48") .segments 48 := by decide
    have hsleep : Addresses "F2FS_GC__background__min_sleep_ms" .minSleep := by decide
    have hnone : ∀ n, ¬Text.Reads 64 " 7s ".toList n := by
      intro n hn
      have hrefused : Text.unsigned? 64 (Text.trim " 7s ".toList) = none := by decide
      rw [Text.unsigned?_trim.mpr hn] at hrefused
      exact Option.some_ne_none n hrefused
    exact (applyEnvironment_exact {} (show Apart oneFault by decide)).2.1
      [("F2FS_GC__segments__total_segs", "48")] ("F2FS_GC__background__min_sleep_ms", " 7s ") [] _
      rfl (.invalid hsleep hnone) (List.forall_mem_singleton.mpr hsegments.not_faulty)

end Settings

end Reclaim
