import ComponentFile.Discovery.Path
import ComponentFile.Proofs.Text.Lines
import Mathlib.Data.List.TakeWhile

/-!
# The order of paths

Paths are compared by their components, not by their text: of two paths the one comes first that has
the earlier component where they first differ, or that ends where the other goes on. The keys by
which files are sorted say just that, and two paths have one key when they have the same components.
-/

namespace ComponentFile.Discovery

/-- Lists compare alike after a map that keeps the order of their elements. -/
theorem lex_map_iff {α β : Type} {before : α → α → Prop} {less : β → β → Prop} {f : α → β}
    (hinj : Function.Injective f) (h : ∀ left right, less (f left) (f right) ↔ before left right)
    (left right : List α) :
    List.Lex less (left.map f) (right.map f) ↔ List.Lex before left right := by
  induction left generalizing right with
  | nil =>
    cases right with
    | nil => exact iff_of_false List.not_lex_nil List.not_lex_nil
    | cons _ right => exact iff_of_true .nil .nil
  | cons first left ih =>
    cases right with
    | nil => exact iff_of_false List.not_lex_nil List.not_lex_nil
    | cons other right =>
      rw [List.map_cons, List.map_cons, List.cons_lex_cons_iff, List.cons_lex_cons_iff, h, ih,
        hinj.eq_iff]

namespace Component

/-- The place of a kind of component in the order. -/
def rank : Component → Nat
  | .root => 0
  | .current => 1
  | .parent => 2
  | .entry _ => 3

/-- One component comes before another: the root before a leading dot, that before a step to the
parent, that before an entry, and entries in the order of their names. -/
inductive Before : Component → Component → Prop
  | rank {left right : Component} (h : left.rank < right.rank) : Before left right
  | name {left right : Text} (h : left < right) : Before (.entry left) (.entry right)

theorem before_iff {left right : Component} :
    Before left right ↔
      left.rank < right.rank ∨ ∃ name other, left = .entry name ∧ right = .entry other ∧
        name < other := by
  constructor
  · rintro (h | h)
    · exact .inl h
    · exact .inr ⟨_, _, rfl, rfl, h⟩
  · rintro (h | ⟨name, other, rfl, rfl, h⟩)
    · exact .rank h
    · exact .name h

/-- Names in order have keys in order. -/
theorem map_toNat_lt_iff (left right : Text) :
    left.map Char.toNat < right.map Char.toNat ↔ left < right :=
  lex_map_iff (fun _ _ => Char.toNat_inj.mp) (fun _ _ => Iff.rfl) left right

/-- Components in order have keys in order. -/
theorem key_lt_iff (left right : Component) : left.key < right.key ↔ Before left right := by
  cases left <;> cases right
    <;> simp [key, before_iff, rank, List.cons_lt_cons_iff, map_toNat_lt_iff]

/-- Different components have different keys. -/
theorem key_injective : Function.Injective key := by
  intro left right h
  cases left <;> cases right
    <;> simp_all [key, (List.map_injective_iff.mpr fun _ _ => Char.toNat_inj.mp).eq_iff]

end Component

/-- One path comes before another. -/
def PathBefore (left right : Text) : Prop :=
  List.Lex Component.Before (components left) (components right)

theorem pathKey_lt_iff (left right : Text) : pathKey left < pathKey right ↔ PathBefore left right :=
  lex_map_iff Component.key_injective Component.key_lt_iff _ _

theorem pathKey_eq_iff (left right : Text) :
    pathKey left = pathKey right ↔ components left = components right :=
  (List.map_injective_iff.mpr Component.key_injective).eq_iff

/-! ## Endings -/

/-- The name ends in a dot and one of the endings, with something before the dot. An ending may be
given with dots in front of it. -/
def EndsIn (extensions : List Text) (name : Text) : Prop :=
  ∃ stem ending dots, stem ≠ [] ∧ '.' ∉ ending ∧ name = stem ++ '.' :: ending ∧
    (∀ c ∈ dots, c = '.') ∧
    dots ++ ending ∈ extensions

/-- The ending of a name that does not start with a dot is what follows its last dot. -/
theorem extension?_eq_some_iff {name ending : Text} (hname : name.head? ≠ some '.') :
    extension? name = some ending ↔ ∃ stem, stem ≠ [] ∧ '.' ∉ ending ∧
      name = stem ++ '.' :: ending := by
  have hdots : name ≠ ['.', '.'] := by
    rintro rfl
    exact hname rfl
  rw [extension?]
  constructor
  · intro h
    split at h
    · cases h
    · cases h
    · next stem found hne hcut =>
      rw [if_neg hdots] at h
      obtain rfl := Option.some.inj h
      have hfree := Text.not_isInfix_of_cutLast?_eq_some hcut
      rw [List.singleton_infix_iff] at hfree
      refine ⟨stem, fun he => hne he, hfree, ?_⟩
      rw [Text.eq_of_cutLast?_eq_some hcut, List.append_assoc, List.singleton_append]
  · rintro ⟨stem, hstem, hending, rfl⟩
    obtain ⟨c, rest, rfl⟩ := List.exists_cons_of_ne_nil hstem
    rw [Text.cutLast?_of_not_mem hending]
    exact if_neg hdots

/-- A name that does not start with a dot has one of the endings if it ends in one of them. -/
theorem hasExtension_iff {extensions : List Text} {name : Text} (hname : name.head? ≠ some '.') :
    hasExtension extensions name = true ↔ EndsIn extensions name := by
  have hstrip (wanted ending : Text) (hending : '.' ∉ ending) :
      wanted.dropWhile (· == '.') = ending ↔ ∃ dots, (∀ c ∈ dots, c = '.') ∧
        dots ++ ending = wanted := by
    constructor
    · rintro rfl
      refine ⟨wanted.takeWhile (· == '.'), fun c hc => ?_, List.takeWhile_append_dropWhile⟩
      have hdot : (c == '.') = true := List.mem_takeWhile_imp (p := (· == '.')) hc
      exact beq_iff_eq.mp hdot
    · rintro ⟨dots, hdots, rfl⟩
      rw [List.dropWhile_append_of_pos fun c hc => beq_iff_eq.mpr (hdots c hc)]
      refine Text.dropWhile_of_head fun c hc => beq_eq_false_iff_ne.mpr ?_
      rintro rfl
      exact hending (List.mem_of_mem_head? hc)
  rw [hasExtension]
  constructor
  · intro h
    split at h
    · cases h
    · next ending hfound =>
      obtain ⟨stem, hstem, hending, hshape⟩ := (extension?_eq_some_iff hname).mp hfound
      obtain ⟨wanted, hwanted, hsame⟩ := List.any_eq_true.mp h
      obtain ⟨dots, hdots, rfl⟩ := (hstrip wanted ending hending).mp (of_decide_eq_true hsame)
      exact ⟨stem, ending, dots, hstem, hending, hshape, hdots, hwanted⟩
  · rintro ⟨stem, ending, dots, hstem, hending, hshape, hdots, hwanted⟩
    rw [(extension?_eq_some_iff hname).mpr ⟨stem, hstem, hending, hshape⟩]
    refine List.any_eq_true.mpr ⟨_, hwanted, decide_eq_true ?_⟩
    exact (hstrip _ ending hending).mpr ⟨dots, hdots, rfl⟩

end ComponentFile.Discovery
