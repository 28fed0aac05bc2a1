import ComponentFile.Dictionary
import Mathlib.Algebra.GroupWithZero.Nat
import Mathlib.Data.List.Induction
import Mathlib.Data.List.Perm.Subperm
import Mathlib.Data.String.Basic

/-!
# Dictionaries by lookup

A dictionary lists its names in increasing order, so each name has one entry at most, and what
stands in the list is what a lookup finds. A later value replaces an earlier one; a tally adds one
to the value that is there.
-/

namespace ComponentFile.Dictionary

variable {κ β : Type} [LT κ] [DecidableLT κ]

/-- A new entry comes in and perhaps takes the place of another. -/
theorem insert_subperm (name : κ) (value : β) (dictionary : Dictionary κ β) :
    (insert name value dictionary).Subperm ((name, value) :: dictionary) := by
  induction dictionary with
  | nil => exact List.Subperm.refl _
  | cons entry rest ih =>
    obtain ⟨other, old⟩ := entry
    rw [insert]
    split
    · exact List.Subperm.refl _
    · split
      · exact ((List.subperm_cons _).mpr ih).trans (List.Perm.swap _ _ _).subperm
      · exact (List.subperm_cons _).mpr (List.sublist_cons_self _ _).subperm

/-- The entries of a dictionary are among those it was made from. -/
theorem ofList_subperm (entries : List (κ × β)) : (ofList entries).Subperm entries := by
  have hfold (entries : List (κ × β)) (dictionary : Dictionary κ β) :
      (entries.foldl (fun dictionary entry => insert entry.1 entry.2 dictionary)
        dictionary).Subperm (entries ++ dictionary) := by
    induction entries generalizing dictionary with
    | nil => exact List.Subperm.refl _
    | cons entry rest ih =>
      refine (ih _).trans ?_
      refine ((List.subperm_append_left rest).mpr
        (insert_subperm entry.1 entry.2 dictionary)).trans ?_
      exact List.perm_middle.subperm
  have hall : (ofList entries).Subperm (entries ++ []) := hfold entries []
  rwa [List.append_nil] at hall

/-- A new entry is in the dictionary. -/
theorem mem_insert_self (name : κ) (value : β) (dictionary : Dictionary κ β) :
    (name, value) ∈ insert name value dictionary := by
  induction dictionary with
  | nil => exact List.mem_cons_self
  | cons entry rest ih =>
    rw [insert]
    split
    · exact List.mem_cons_self
    · split
      · exact List.mem_cons_of_mem _ ih
      · exact List.mem_cons_self

/-- A name that comes up once more has one more. -/
theorem tally_concat (names : List κ) (name : κ) :
    tally (names ++ [name]) = insert name ((get? name (tally names)).getD 0 + 1) (tally names) := by
  rw [tally, List.foldl_append]
  rfl

variable [Std.Trichotomous (α := κ) (· < ·)]

/-- A new entry leaves those of other names in place. -/
theorem mem_insert_of_ne {name other : κ} {value new : β} {dictionary : Dictionary κ β}
    (h : (name, value) ∈ dictionary) (hne : name ≠ other) :
    (name, value) ∈ insert other new dictionary := by
  induction dictionary with
  | nil => cases h
  | cons entry rest ih =>
    obtain ⟨first, old⟩ := entry
    rw [insert]
    split
    · exact List.mem_cons_of_mem _ h
    next hless =>
    split
    · rcases List.mem_cons.mp h with he | h
      · exact he ▸ List.mem_cons_self
      · exact List.mem_cons_of_mem _ (ih h)
    next hmore =>
    rcases List.mem_cons.mp h with he | h
    · have hfirst : other = first := Std.Trichotomous.trichotomous other first hless hmore
      exact absurd ((Prod.mk.inj he).1.trans hfirst.symm) hne
    · exact List.mem_cons_of_mem _ h

/-- The last entry of a name is in the dictionary. -/
theorem mem_ofList {entries before later : List (κ × β)} {name : κ} {value : β}
    (h : entries = before ++ (name, value) :: later) (hlast : name ∉ later.map Prod.fst) :
    (name, value) ∈ ofList entries := by
  have hlater (later : List (κ × β)) (hlast : name ∉ later.map Prod.fst)
      (dictionary : Dictionary κ β)
      (hm : (name, value) ∈ dictionary) :
      (name, value) ∈
        later.foldl (fun dictionary entry => insert entry.1 entry.2 dictionary) dictionary := by
    induction later generalizing dictionary with
    | nil => exact hm
    | cons entry later ih =>
      rw [List.map_cons, List.mem_cons, not_or] at hlast
      exact ih hlast.2 _ (mem_insert_of_ne hm hlast.1)
  rw [h, ofList, List.foldl_append, List.foldl_cons]
  exact hlater later hlast _ (mem_insert_self name value _)

section

variable [DecidableEq κ] [Std.Irrefl (α := κ) (· < ·)]

/-- The value of a name is that of its first entry. -/
theorem get?_cons (name other : κ) (value : β) (rest : Dictionary κ β) :
    get? name ((other, value) :: rest) = if name = other then some value else get? name rest := by
  rw [get?]
  by_cases hname : name = other
  · subst hname
    rw [if_neg (not_or.mpr ⟨Std.Irrefl.irrefl name, Std.Irrefl.irrefl name⟩), if_pos rfl]
  · have hless : name < other ∨ other < name := by
      by_contra hnot
      rw [not_or] at hnot
      exact hname (Std.Trichotomous.trichotomous name other hnot.1 hnot.2)
    rw [if_pos hless, if_neg hname]

/-- A new value is found under its name, and the other values stay. -/
theorem get?_insert (name other : κ) (value : β) (dictionary : Dictionary κ β) :
    get? name (insert other value dictionary) = if name = other then some value
      else get? name dictionary := by
  induction dictionary with
  | nil => rw [insert, get?_cons]
  | cons entry rest ih =>
    obtain ⟨first, old⟩ := entry
    rw [insert]
    split
    · rw [get?_cons]
    next hless =>
    split
    · next hmore =>
      rw [get?_cons, ih, get?_cons]
      by_cases hfirst : name = first
      · have hne : name ≠ other := by
          rintro rfl
          exact Std.Irrefl.irrefl _ (hfirst ▸ hmore)
        rw [if_pos hfirst, if_neg hne, if_pos hfirst]
      · rw [if_neg hfirst, if_neg hfirst]
    · next hmore =>
      obtain rfl : other = first := Std.Trichotomous.trichotomous other first hless hmore
      rw [get?_cons, get?_cons]
      by_cases hname : name = other
      · rw [if_pos hname, if_pos hname]
      · rw [if_neg hname, if_neg hname, if_neg hname]

/-- Of the values for a name the last one is found. -/
theorem get?_ofList [BEq κ] [LawfulBEq κ] (name : κ) (entries : List (κ × β)) :
    get? name (ofList entries) = entries.reverse.lookup name := by
  induction entries using List.reverseRecOn with
  | nil => rfl
  | append_singleton entries entry ih =>
    have hlast : ofList (entries ++ [entry]) = insert entry.1 entry.2 (ofList entries) := by
      rw [ofList, List.foldl_append]
      rfl
    rw [hlast, get?_insert, ih, List.reverse_concat, List.lookup_cons]
    by_cases hname : name = entry.1
    · rw [if_pos hname, beq_iff_eq.mpr hname]
    · rw [if_neg hname, beq_eq_false_iff_ne.mpr hname]

end

/-- The names are in increasing order. -/
def Increasing (dictionary : Dictionary κ β) : Prop :=
  dictionary.Pairwise fun left right => left.1 < right.1

/-- A new entry keeps the names in order. -/
theorem Increasing.insert [IsTrans κ (· < ·)] {dictionary : Dictionary κ β}
    (h : Increasing dictionary) (name : κ) (value : β) :
    Increasing (insert name value dictionary) := by
  induction dictionary with
  | nil => exact List.pairwise_singleton _ _
  | cons entry rest ih =>
    obtain ⟨first, old⟩ := entry
    obtain ⟨hfirst, hrest⟩ := List.pairwise_cons.mp h
    rw [Dictionary.insert]
    split
    · next hless =>
      refine List.pairwise_cons.mpr ⟨fun other hm => ?_, h⟩
      rcases List.mem_cons.mp hm with rfl | hm
      · exact hless
      · exact IsTrans.trans _ _ _ hless (hfirst other hm)
    next hless =>
    split
    · next hmore =>
      refine List.pairwise_cons.mpr ⟨fun other hm => ?_, ih hrest⟩
      rcases List.mem_cons.mp ((insert_subperm name value rest).subset hm) with rfl | hm
      · exact hmore
      · exact hfirst other hm
    · next hmore =>
      obtain rfl : name = first := Std.Trichotomous.trichotomous name first hless hmore
      exact List.pairwise_cons.mpr ⟨hfirst, hrest⟩

/-- A dictionary lists its names in increasing order. -/
theorem increasing_ofList [IsTrans κ (· < ·)] (entries : List (κ × β)) :
    Increasing (ofList entries) := by
  have hfold (entries : List (κ × β)) (dictionary : Dictionary κ β) (h : Increasing dictionary) :
      Increasing (entries.foldl
        (fun dictionary entry => Dictionary.insert entry.1 entry.2 dictionary) dictionary) := by
    induction entries generalizing dictionary with
    | nil => exact h
    | cons entry entries ih => exact ih _ (h.insert entry.1 entry.2)
  exact hfold entries [] List.Pairwise.nil

/-! ## Counts -/

/-- Counts are listed in increasing order of the names. -/
theorem increasing_tally [IsTrans κ (· < ·)] (names : List κ) : Increasing (tally names) := by
  induction names using List.reverseRecOn with
  | nil => exact List.Pairwise.nil
  | append_singleton names last ih =>
    rw [tally_concat]
    exact ih.insert last _

section

variable [DecidableEq κ] [Std.Irrefl (α := κ) (· < ·)]

/-- What a lookup finds is what stands in the list. -/
theorem Increasing.mem_iff {dictionary : Dictionary κ β} (h : Increasing dictionary) {name : κ}
    {value : β} :
    (name, value) ∈ dictionary ↔ get? name dictionary = some value := by
  induction dictionary with
  | nil => exact iff_of_false List.not_mem_nil (nomatch ·)
  | cons entry rest ih =>
    obtain ⟨other, old⟩ := entry
    obtain ⟨hother, hrest⟩ := List.pairwise_cons.mp h
    rw [get?_cons, List.mem_cons, Prod.mk.injEq]
    by_cases hname : name = other
    · have hlater : (name, value) ∉ rest := fun hm => Std.Irrefl.irrefl _ (hname ▸ hother _ hm)
      rw [if_pos hname, Option.some.injEq, or_iff_left hlater, and_iff_right hname, eq_comm]
    · rw [if_neg hname, ih hrest, or_iff_right fun he => hname he.1]

/-- The values with a new one, and the one that it replaces, add up to the old values and the new
one. -/
theorem Increasing.sum_insert [IsTrans κ (· < ·)] {dictionary : Dictionary κ Nat}
    (h : Increasing dictionary) (name : κ) (value : Nat) :
    ((Dictionary.insert name value dictionary).map Prod.snd).sum + (get? name dictionary).getD 0 =
      (dictionary.map Prod.snd).sum + value := by
  induction dictionary with
  | nil => exact Nat.add_comm value 0
  | cons entry rest ih =>
    obtain ⟨other, old⟩ := entry
    obtain ⟨hother, hrest⟩ := List.pairwise_cons.mp h
    rw [Dictionary.insert]
    split
    · next hless =>
      -- all names of the dictionary come later
      have hnone : get? name ((other, old) :: rest) = none := by
        refine Option.eq_none_iff_forall_ne_some.mpr fun found hfound => ?_
        rcases List.mem_cons.mp (h.mem_iff.mpr hfound) with he | hm
        · exact Std.Irrefl.irrefl other ((Prod.mk.inj he).1 ▸ hless)
        · exact Std.Irrefl.irrefl other (IsTrans.trans _ _ _ (hother _ hm) hless)
      rw [hnone, List.map_cons, List.sum_cons, Option.getD_none]
      omega
    next hless =>
    split
    · next hmore =>
      have hne : name ≠ other := fun he => Std.Irrefl.irrefl other (he ▸ hmore)
      have hsum := ih hrest
      rw [get?_cons, if_neg hne]
      simp only [List.map_cons, List.sum_cons]
      omega
    · next hmore =>
      obtain rfl : name = other := Std.Trichotomous.trichotomous name other hless hmore
      rw [get?_cons, if_pos rfl, Option.getD_some]
      simp only [List.map_cons, List.sum_cons]
      omega

variable (names : List κ)

/-- A name is counted as often as it comes up, and a name that does not come up has no entry. -/
theorem get?_tally (name : κ) :
    get? name (tally names) = if name ∈ names then some (names.count name) else none := by
  induction names using List.reverseRecOn with
  | nil => rfl
  | append_singleton names last ih =>
    rw [tally_concat, get?_insert, List.count_append, List.count_singleton]
    by_cases hlast : name = last
    · subst hlast
      rw [if_pos rfl, if_pos List.mem_concat_self, ih, beq_self_eq_true, if_pos rfl]
      split
      · rw [Option.getD_some]
      · next hnot => rw [Option.getD_none, List.count_eq_zero_of_not_mem hnot]
    · have hmem : name ∈ names ++ [last] ↔ name ∈ names := by
        rw [List.mem_append, List.mem_singleton, or_iff_left hlast]
      rw [if_neg hlast, ih, beq_eq_false_iff_ne.mpr (Ne.symm hlast), if_neg Bool.false_ne_true,
        Nat.add_zero]
      simp only [hmem]

/-- All counts together are the number of all names. -/
theorem sum_tally [IsTrans κ (· < ·)] : ((tally names).map Prod.snd).sum = names.length := by
  induction names using List.reverseRecOn with
  | nil => rfl
  | append_singleton names last ih =>
    have hsum := (increasing_tally names).sum_insert last ((get? last (tally names)).getD 0 + 1)
    rw [tally_concat, List.length_append, List.length_singleton]
    omega

end

end ComponentFile.Dictionary
