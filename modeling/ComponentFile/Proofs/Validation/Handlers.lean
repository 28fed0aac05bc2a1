import ComponentFile.Proofs.Template.Segment
import ComponentFile.Proofs.Text.Lines
import ComponentFile.Proofs.Text.Trimming
import ComponentFile.Validation.Markup

/-!
# Handlers in a text

A handler is looked for wherever white space stands in the attributes of a tag. What reads as a
handler is white space, a name that starts with `on`, and an equals sign, with white space before it
if there is any. Inside of such a mark no other one starts, so repeated searches find all of them.
Each name is reported once.
-/

namespace ComponentFile.Validation

open Segment

/-! ## Each name once -/

section

variable {β : Type} {name : Text}

/-- The names that are kept are those that have not come up before. -/
theorem mem_map_fst_firstOfEach_iff {seen : List Text} {entries : List (Text × β)} :
    name ∈ (firstOfEach seen entries).map Prod.fst ↔ name ∈ entries.map Prod.fst ∧ name ∉ seen := by
  induction entries generalizing seen with
  | nil => simp only [firstOfEach, List.map_nil, List.not_mem_nil, false_and]
  | cons entry entries ih =>
    obtain ⟨first, value⟩ := entry
    rw [firstOfEach, List.map_cons, List.mem_cons]
    by_cases hseen : first ∈ seen
    · rw [if_pos hseen, ih]
      constructor
      · exact fun ⟨hmem, hnot⟩ => ⟨.inr hmem, hnot⟩
      · rintro ⟨rfl | hmem, hnot⟩
        · exact absurd hseen hnot
        · exact ⟨hmem, hnot⟩
    · rw [if_neg hseen, List.map_cons, List.mem_cons, ih, List.mem_cons]
      constructor
      · rintro (rfl | ⟨hmem, hnot⟩)
        · exact ⟨.inl rfl, hseen⟩
        · exact ⟨.inr hmem, fun hm => hnot (.inr hm)⟩
      · rintro ⟨rfl | hmem, hnot⟩
        · exact .inl rfl
        · by_cases hfirst : name = first
          · exact .inl hfirst
          · exact .inr ⟨hmem, not_or.mpr ⟨hfirst, hnot⟩⟩

/-- No name is kept twice. -/
theorem nodup_map_fst_firstOfEach (seen : List Text) (entries : List (Text × β)) :
    ((firstOfEach seen entries).map Prod.fst).Nodup := by
  induction entries generalizing seen with
  | nil => exact List.nodup_nil
  | cons entry entries ih =>
    obtain ⟨first, value⟩ := entry
    rw [firstOfEach]
    split
    · exact ih seen
    · rw [List.map_cons, List.nodup_cons, mem_map_fst_firstOfEach_iff]
      exact ⟨fun hmem => hmem.2 List.mem_cons_self, ih _⟩

end

/-! ## Names of handlers -/

/-- The name of a handler, in any letter case: `on`, and at least one more letter. -/
def IsHandler (name : Text) : Prop :=
  ∃ o n letters, name = o :: n :: letters ∧ o.toLower = 'o' ∧ n.toLower = 'n' ∧ letters ≠ [] ∧
    ∀ c ∈ letters, c.isAlpha = true

/-- A character with a small form that is a letter is a letter. -/
private theorem isAlpha_of_toLower {c letter : Char} (h : c.toLower = letter)
    (hletter : letter.isLower = true) :
    c.isAlpha = true := by
  unfold Char.toLower at h
  change (c.isUpper || c.isLower) = true
  rw [Bool.or_eq_true]
  split at h
  · next hupper => exact .inl (decide_eq_true hupper)
  · exact .inr (h ▸ hletter)

theorem IsHandler.isAlpha {name : Text} (h : IsHandler name) : ∀ c ∈ name, c.isAlpha = true := by
  obtain ⟨o, n, letters, rfl, ho, hn, -, hletters⟩ := h
  rw [List.forall_mem_cons, List.forall_mem_cons]
  exact ⟨isAlpha_of_toLower ho rfl, isAlpha_of_toLower hn rfl, hletters⟩

theorem IsHandler.ne_nil {name : Text} (h : IsHandler name) : name ≠ [] := by
  obtain ⟨o, n, letters, rfl, -⟩ := h
  exact List.cons_ne_nil _ _

/-- White space is no letter. -/
theorem isBlank_of_isLetter {c : Char} (h : isLetter c = true) : isBlank c = false := by
  rw [isLetter, Bool.or_eq_true, Bool.or_eq_true, beq_iff_eq, beq_iff_eq] at h
  rcases h with (h | rfl) | rfl
  · have hletter := Text.toNat_of_isAlpha h
    exact Text.isBlank_of_toNat (by omega) (by omega)
  · decide
  · decide

theorem isLetter_of_isAlpha {c : Char} (h : c.isAlpha = true) : isLetter c = true := by
  rw [isLetter, h]
  rfl

/-- Neither white space nor the equals sign. -/
def isWordChar (c : Char) : Bool := !isBlank c && c != '='

theorem isWordChar_of_isLetter {c : Char} (h : isLetter c = true) : isWordChar c = true := by
  rw [isWordChar, isBlank_of_isLetter h, Bool.not_false, Bool.true_and, bne_iff_ne]
  rintro rfl
  cases h

theorem IsHandler.isWordChar {name : Text} (h : IsHandler name) : ∀ c ∈ name, isWordChar c = true :=
  fun c hc => isWordChar_of_isLetter (isLetter_of_isAlpha (h.isAlpha c hc))

theorem isBlank_of_isWordChar {c : Char} (h : isWordChar c = true) : isBlank c = false := by
  rw [isWordChar, Bool.and_eq_true, Bool.not_eq_true'] at h
  exact h.1

/-- A word ends where white space and an equals sign follow. -/
theorem isWordChar_head_gap {gap : Text} (hgap : ∀ c ∈ gap, isBlank c = true) (tail : Text) :
    ∀ c ∈ (gap ++ '=' :: tail).head?, isWordChar c = false := by
  intro c hc
  cases gap with
  | nil =>
    rw [← Option.some.inj hc]
    rfl
  | cons d gap =>
    rw [← Option.some.inj hc, isWordChar, hgap d List.mem_cons_self]
    rfl

/-! ## Marks of handlers -/

/-- The text reads as a handler: white space, the name, and the equals sign with white space before
it. -/
def ReadsAsHandler (mark name : Text) : Prop :=
  ∃ blank spelling gap, mark = blank :: (spelling ++ (gap ++ ['='])) ∧ isBlank blank = true ∧
    IsHandler spelling ∧
    (∀ c ∈ gap, isBlank c = true) ∧ name = spelling.toLower

/-- The text starts with what reads as a handler. -/
def StartsHandler (text name : Text) : Prop := ∃ mark, ReadsAsHandler mark name ∧ mark <+: text

/-- The text holds what reads as a handler. -/
def HoldsHandler (text name : Text) : Prop := ∃ mark, ReadsAsHandler mark name ∧ mark <:+: text

section

variable {name : Text}

theorem not_holdsHandler_nil : ¬HoldsHandler [] name := by
  rintro ⟨mark, ⟨blank, spelling, gap, rfl, -⟩, hmark⟩
  cases List.infix_nil.mp hmark

theorem holdsHandler_cons_iff {c : Char} {text : Text} :
    HoldsHandler (c :: text) name ↔ StartsHandler (c :: text) name ∨ HoldsHandler text name := by
  simp only [HoldsHandler, StartsHandler, List.infix_cons_iff, and_or_left, exists_or]

/-- Text at whose characters no handler starts holds none. -/
theorem holdsHandler_append_iff {front text : Text}
    (h : ∀ c rest, c :: rest <:+ front → ¬StartsHandler (c :: (rest ++ text)) name) :
    HoldsHandler (front ++ text) name ↔ HoldsHandler text name := by
  induction front with
  | nil => rfl
  | cons c front ih =>
    rw [List.cons_append, holdsHandler_cons_iff, or_iff_right (h c front List.suffix_rfl)]
    exact ih fun d rest hsuffix => h d rest (hsuffix.trans (List.suffix_cons c front))

/-- A handler starts with white space, and goes on with a letter. -/
theorem StartsHandler.head {c : Char} {rest : Text} (h : StartsHandler (c :: rest) name) :
    isBlank c = true ∧ ∃ d ∈ rest.head?, d.isAlpha = true := by
  obtain ⟨mark, ⟨blank, spelling, gap, rfl, hblank, hspelling, -, -⟩, hmark⟩ := h
  obtain ⟨rfl, hrest⟩ := List.cons_prefix_cons.mp hmark
  obtain ⟨d, more, rfl⟩ := List.exists_cons_of_ne_nil hspelling.ne_nil
  obtain ⟨tail, rfl⟩ := hrest
  exact ⟨hblank, d, rfl, hspelling.isAlpha d List.mem_cons_self⟩

/-- No handler starts at a character that is not white space. -/
theorem holdsHandler_append_iff_of_not_blank {front : Text} (h : ∀ c ∈ front, isBlank c = false)
    (text : Text) :
    HoldsHandler (front ++ text) name ↔ HoldsHandler text name := by
  apply holdsHandler_append_iff
  intro c rest hsuffix hstarts
  have hblank := h c (hsuffix.subset List.mem_cons_self)
  rw [hstarts.head.1] at hblank
  cases hblank

/-- No handler starts in white space before something that is no letter. -/
theorem holdsHandler_append_iff_of_blank {front text : Text} (h : ∀ c ∈ front, isBlank c = true)
    (htext : ∀ c ∈ text.head?, c.isAlpha = false) :
    HoldsHandler (front ++ text) name ↔ HoldsHandler text name := by
  apply holdsHandler_append_iff
  intro c rest hsuffix hstarts
  obtain ⟨d, hd, halpha⟩ := hstarts.head.2
  cases rest with
  | nil =>
    rw [htext d hd] at halpha
    cases halpha
  | cons e rest =>
    obtain rfl : e = d := Option.some.inj hd
    have hblank := h e (hsuffix.subset (List.mem_cons_of_mem _ List.mem_cons_self))
    rw [isBlank_of_isLetter (isLetter_of_isAlpha halpha)] at hblank
    cases hblank

/-- A word of a tag reads as a handler by its name, if an equals sign follows. -/
theorem startsHandler_cons_append_iff {blank : Char} {word text : Text}
    (hblank : isBlank blank = true) (hword : ∀ c ∈ word, isWordChar c = true)
    (htext : ∀ c ∈ text.head?, isWordChar c = false) :
    StartsHandler (blank :: (word ++ text)) name ↔
      IsHandler word ∧ name = word.toLower ∧ (text.dropWhile isBlank).head? = some '=' := by
  constructor
  · rintro ⟨mark, ⟨first, spelling, gap, rfl, -, hspelling, hgap, hname⟩, hmark⟩
    obtain ⟨rfl, tail, htail⟩ := List.cons_prefix_cons.mp hmark
    rw [List.append_assoc, List.append_assoc, List.singleton_append] at htail
    obtain ⟨rfl, rfl⟩ :=
      Text.append_inj_of_run hspelling.isWordChar (isWordChar_head_gap hgap tail) hword htext htail
    refine ⟨hspelling, hname, ?_⟩
    rw [List.dropWhile_append_of_pos hgap]
    rfl
  · rintro ⟨hhandler, hname, hequals⟩
    obtain ⟨tail, htail⟩ := List.head?_eq_some_iff.mp hequals
    refine ⟨_, ⟨blank, word, text.takeWhile isBlank, rfl, hblank, hhandler,
      fun c => List.mem_takeWhile_imp, hname⟩, ?_⟩
    refine List.cons_prefix_cons.mpr ⟨rfl, tail, ?_⟩
    rw [List.append_assoc, List.append_assoc, List.singleton_append, ← htail,
      List.takeWhile_append_dropWhile]

/-- A character that no handler has separates handlers. -/
theorem holdsHandler_append_cons_iff {c : Char} (hletter : c.isAlpha = false)
    (hblank : isBlank c = false) (hne : c ≠ '=') (left right : Text) :
    HoldsHandler (left ++ c :: right) name ↔ HoldsHandler left name ∨ HoldsHandler right name := by
  have hfree (mark : Text) (h : ReadsAsHandler mark name) : c ∉ mark := by
    obtain ⟨blank, spelling, gap, rfl, hfirst, hspelling, hgap, -⟩ := h
    rw [List.mem_cons, List.mem_append, List.mem_append, List.mem_singleton]
    rintro (rfl | hmem | hmem | heq)
    · exact absurd hfirst (hblank ▸ Bool.false_ne_true)
    · exact absurd (hspelling.isAlpha c hmem) (hletter ▸ Bool.false_ne_true)
    · exact absurd (hgap c hmem) (hblank ▸ Bool.false_ne_true)
    · exact hne heq
  constructor
  · rintro ⟨mark, hmark, hholds⟩
    rcases (Text.isInfix_append_cons_iff (hfree mark hmark) left right).mp hholds with
      hleft | hright
    · exact .inl ⟨mark, hmark, hleft⟩
    · exact .inr ⟨mark, hmark, hright⟩
  · rintro (⟨mark, hmark, hholds⟩ | ⟨mark, hmark, hholds⟩)
    · exact ⟨mark, hmark, hholds.trans (List.prefix_append left _).isInfix⟩
    · exact ⟨mark, hmark,
        hholds.trans ((List.suffix_cons c right).trans (List.suffix_append left _)).isInfix⟩

/-- Inside of what reads as a handler no other one starts. -/
theorem holdsHandler_mark_append_iff {mark other : Text} (h : ReadsAsHandler mark other)
    (after : Text) :
    HoldsHandler (mark ++ after) name ↔ name = other ∨ HoldsHandler after name := by
  obtain ⟨blank, spelling, gap, rfl, hblank, hspelling, hgap, rfl⟩ := h
  have htext : blank :: (spelling ++ (gap ++ ['='])) ++ after =
      blank :: (spelling ++ (gap ++ '=' :: after)) := by
    simp only [List.cons_append, List.append_assoc, List.nil_append]
  have hfirst : ((gap ++ '=' :: after).dropWhile isBlank).head? = some '=' := by
    rw [List.dropWhile_append_of_pos hgap]
    rfl
  have hequals : ∀ c ∈ ('=' :: after).head?, c.isAlpha = false := by
    rintro c hc
    rw [← Option.some.inj hc]
    rfl
  have hword : ∀ c ∈ spelling, isBlank c = false :=
    fun c hc => isBlank_of_isWordChar (hspelling.isWordChar c hc)
  have hsign : HoldsHandler ('=' :: after) name ↔ HoldsHandler after name :=
    holdsHandler_append_iff_of_not_blank (List.forall_mem_singleton.mpr rfl) after
  rw [htext, holdsHandler_cons_iff,
    startsHandler_cons_append_iff hblank hspelling.isWordChar (isWordChar_head_gap hgap after),
    holdsHandler_append_iff_of_not_blank hword,
    holdsHandler_append_iff_of_blank hgap hequals, hsign]
  simp only [hspelling, hfirst, true_and, and_true]

/-! ## Reading handlers -/

/-- Cutting off `on` takes two letters, in any letter case. -/
theorem afterAnyCase?_on_eq_some_iff {text on rest : Text} :
    afterAnyCase? ['o', 'n'] text = some (on, rest) ↔
      ∃ o n, text = o :: n :: rest ∧ on = [o, n] ∧ o.toLower = 'o' ∧ n.toLower = 'n' := by
  have ho (c : Char) : sameLetter 'o' c = true ↔ c.toLower = 'o' := by simp [sameLetter]
  have hn (c : Char) : sameLetter 'n' c = true ↔ c.toLower = 'n' := by simp [sameLetter]
  rcases text with _ | ⟨o, _ | ⟨n, text⟩⟩
  · simp [afterAnyCase?]
  · simp [afterAnyCase?]
  · simp only [afterAnyCase?, ho, hn]
    constructor
    · intro h
      split at h
      · next hfirst =>
        split at h
        · next hsecond =>
          obtain ⟨rfl, rfl⟩ := Prod.mk.inj (Option.some.inj h)
          exact ⟨o, n, rfl, rfl, hfirst, hsecond⟩
        · cases h
      · cases h
    · rintro ⟨o', n', htext, rfl, ho', hn'⟩
      obtain ⟨rfl, rfl, rfl⟩ : o = o' ∧ n = n' ∧ text = rest := by simpa using htext
      simp only [ho', hn', if_true, Option.map_some]

private theorem eventAttribute_of_readsAsHandler {mark : Text} (h : ReadsAsHandler mark name)
    (rest : Text) :
    eventAttribute (mark ++ rest) = some (name, mark.length) := by
  obtain ⟨blank, spelling, gap, rfl, hblank, ⟨o, n, letters, rfl, ho, hn, hne, hletters⟩,
    hgap, rfl⟩ := h
  have hon : afterAnyCase? ['o', 'n'] (o :: n :: (letters ++ (gap ++ '=' :: rest))) =
      some ([o, n], letters ++ (gap ++ '=' :: rest)) :=
    afterAnyCase?_on_eq_some_iff.mpr ⟨o, n, rfl, rfl, ho, hn⟩
  have hall : ∀ c ∈ letters, isLetter c = true := fun c hc => isLetter_of_isAlpha (hletters c hc)
  have hstop : ∀ c ∈ (gap ++ '=' :: rest).head?, isLetter c = false := by
    intro c hc
    have hend := isWordChar_head_gap hgap rest c hc
    cases hletter : isLetter c with
    | false => rfl
    | true =>
      rw [isWordChar_of_isLetter hletter] at hend
      cases hend
  have hequals : ∀ c ∈ ('=' :: rest).head?, isBlank c = false := by
    rintro c hc
    rw [← Option.some.inj hc]
    rfl
  have htext : blank :: (o :: n :: letters ++ (gap ++ ['='])) ++ rest =
      blank :: o :: n :: (letters ++ (gap ++ '=' :: rest)) := by
    simp only [List.cons_append, List.append_assoc, List.nil_append]
  rw [htext, eventAttribute]
  simp only [hblank, Bool.not_true, Bool.false_eq_true, if_false, hon]
  rw [List.takeWhile_append_of_pos hall, List.dropWhile_append_of_pos hall,
    Text.takeWhile_of_head hstop, Text.dropWhile_of_head hstop, List.takeWhile_append_of_pos hgap,
    List.dropWhile_append_of_pos hgap, Text.takeWhile_of_head hequals,
    Text.dropWhile_of_head hequals, List.append_nil, List.append_nil,
    List.isEmpty_eq_false_iff.mpr hne, List.head?_cons, bne_self_eq_false, Bool.or_false,
    if_neg Bool.false_ne_true]
  congr 2
  simp only [List.length_cons, List.length_append, List.length_nil]
  omega

private theorem exists_of_eventAttribute {text : Text}
    (hplain : ∀ c ∈ text, isLetter c = true → c.isAlpha = true) {length : Nat}
    (h : eventAttribute text = some (name, length)) :
    ∃ mark rest, ReadsAsHandler mark name ∧ text = mark ++ rest ∧ length = mark.length := by
  unfold eventAttribute at h
  split at h
  · next blank rest =>
    split at h
    · cases h
    · next hblank =>
      split at h
      · cases h
      · next on rest' hon =>
        obtain ⟨o, n, rfl, rfl, ho, hn⟩ := afterAnyCase?_on_eq_some_iff.mp hon
        dsimp only at h
        split at h
        · cases h
        · next hcond =>
          obtain ⟨rfl, rfl⟩ := Prod.mk.inj (Option.some.inj h)
          rw [Bool.not_eq_true, Bool.or_eq_false_iff, List.isEmpty_eq_false_iff,
            bne_eq_false_iff_eq] at hcond
          obtain ⟨tail, htail⟩ := List.head?_eq_some_iff.mp hcond.2
          have hletters : ∀ c ∈ rest'.takeWhile isLetter, c.isAlpha = true := by
            intro c hc
            have hmem : c ∈ blank :: o :: n :: rest' := by
              simp only [List.mem_cons, (List.takeWhile_prefix isLetter).subset hc, or_true]
            exact hplain c hmem (List.mem_takeWhile_imp hc)
          have hgap : ∀ c ∈ (rest'.dropWhile isLetter).takeWhile isBlank, isBlank c = true :=
            fun c => List.mem_takeWhile_imp
          rw [Bool.not_eq_true, Bool.not_eq_false'] at hblank
          refine ⟨_, tail, ⟨blank, _, _, rfl, hblank, ⟨o, n, _, rfl, ho, hn, hcond.1, hletters⟩,
            hgap, rfl⟩, ?_, ?_⟩
          · have hrest : rest' =
                  rest'.takeWhile isLetter ++ ((rest'.dropWhile isLetter).takeWhile isBlank ++
                '=' :: tail) := by
              rw [← htail, List.takeWhile_append_dropWhile, List.takeWhile_append_dropWhile]
            simp only [List.cons_append, List.append_assoc, List.nil_append, ← hrest]
          · simp only [List.length_cons, List.length_append, List.length_nil]
            omega
  · cases h

/-- The handlers that are read one after the other are those that the text holds. -/
theorem mem_values_eventAttribute_iff {text : Text}
    (hplain : ∀ c ∈ text, isLetter c = true → c.isAlpha = true) :
    name ∈ values (segments eventAttribute text) ↔ HoldsHandler text name := by
  induction hlength : text.length using Nat.strongRecOn generalizing text with
  | ind length ih =>
    cases text with
    | nil => exact iff_of_false List.not_mem_nil not_holdsHandler_nil
    | cons c rest =>
      cases hread : eventAttribute (c :: rest) with
      | none =>
        have hnot : ¬StartsHandler (c :: rest) name := by
          rintro ⟨mark, hmark, tail, htail⟩
          rw [← htail, eventAttribute_of_readsAsHandler hmark] at hread
          cases hread
        rw [values_segments_cons hread, holdsHandler_cons_iff, or_iff_right hnot]
        subst hlength
        exact ih _ (Nat.lt_succ_self _) (fun d hd => hplain d (List.mem_cons_of_mem _ hd)) rfl
      | some found =>
        obtain ⟨other, size⟩ := found
        obtain ⟨mark, after, hmark, htext, rfl⟩ := exists_of_eventAttribute hplain hread
        have hne : mark ≠ [] := by
          obtain ⟨blank, spelling, gap, rfl, -⟩ := hmark
          exact List.cons_ne_nil _ _
        have hshort : after.length < length := by
          rw [← hlength, htext, List.length_append]
          have hpositive := List.length_pos_iff.mpr hne
          omega
        rw [htext] at hread hplain ⊢
        rw [values_segments_append hne hread, List.mem_cons, holdsHandler_mark_append_iff hmark,
          ih _ hshort (fun d hd => hplain d (List.mem_append_right _ hd)) rfl]

end

end ComponentFile.Validation
