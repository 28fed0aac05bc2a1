import ComponentFile.Proofs.Directive.Spelling
import ComponentFile.Proofs.Template.Items

/-!
# Tidy templates

In a tidy text no directive stands inside the braces of another: between two opening braces and the
next two closing ones there are neither opening braces nor placeholders. Then no token holds a
placeholder, and the text stays tidy when directives are replaced by placeholders, since a
placeholder never gets between braces.
-/

namespace ComponentFile.Template

/-- The text `inner` stands between two opening braces and the next two closing ones. -/
def InBraces (inner text : Text) : Prop :=
  ∃ tail rest, opening ++ tail <:+ text ∧ Text.cut? closing tail = some (inner, rest)

/-- There are no opening braces between opening braces and the next closing ones. -/
def Unnested (text : Text) : Prop := ∀ inner, InBraces inner text → ¬opening <:+: inner

/-- There are neither opening braces nor placeholders between opening braces and the next closing
ones. -/
def Tidy (text : Text) : Prop :=
  ∀ inner, InBraces inner text → ¬opening <:+: inner ∧ Placeholder.references inner = []

/-- Whether there are opening braces between braces can be checked place by place. -/
theorem unnested_iff {text : Text} :
    Unnested text ↔ ∀ tail ∈ text.tails,
      ((Text.after? opening tail).bind (Text.cut? closing)).all
          (fun cut => !Text.contains opening cut.1) =
        true := by
  have hcontains (inner : Text) : (!Text.contains opening inner) = true ↔ ¬opening <:+: inner := by
    rw [Bool.not_eq_true', Text.contains, Option.isSome_eq_false_iff, Option.isNone_iff_eq_none,
      Text.cut?_eq_none_iff]
  simp only [Option.all_eq_true_iff_get]
  constructor
  · intro h tail htail hsome
    obtain ⟨⟨inner, rest⟩, hcut⟩ := Option.isSome_iff_exists.mp hsome
    obtain ⟨after, hafter, hclose⟩ := Option.bind_eq_some_iff.mp hcut
    simp only [hcut, Option.get_some]
    refine (hcontains inner).mpr (h inner ⟨after, rest, ?_, hclose⟩)
    rwa [← Text.after?_eq_some_iff.mp hafter, ← List.mem_tails]
  · rintro h inner ⟨tail, rest, htail, hcut⟩
    have hread : (Text.after? opening (opening ++ tail)).bind (Text.cut? closing) =
        some (inner, rest) := by
      rw [Text.after?_append, Option.bind_some, hcut]
    have hsome := h (opening ++ tail) ((List.mem_tails _ _).mpr htail)
    simp only [hread, Option.isSome_some, Option.get_some, forall_const] at hsome
    exact (hcontains inner).mp hsome

instance (text : Text) : Decidable (Unnested text) := decidable_of_iff _ unnested_iff.symm

/-- What stands in braces in a piece stands in braces in the text. -/
theorem InBraces.of_isInfix {inner piece text : Text} (h : InBraces inner piece)
    (hp : piece <:+: text) :
    InBraces inner text := by
  obtain ⟨tail, rest, htail, hcut⟩ := h
  obtain ⟨front, back, rfl⟩ := hp
  refine ⟨tail ++ back, rest ++ back, ?_, Text.cut?_append_of_eq_some hcut back⟩
  obtain ⟨before, rfl⟩ := htail
  exact ⟨front ++ before, by simp only [List.append_assoc]⟩

/-- A piece of a tidy text is tidy. -/
theorem Tidy.of_isInfix {piece text : Text} (h : Tidy text) (hp : piece <:+: text) : Tidy piece :=
  fun inner hinner => h inner (hinner.of_isInfix hp)

/-- What stands in braces is a connected piece. -/
theorem InBraces.isInfix {inner text : Text} (h : InBraces inner text) : inner <:+: text := by
  obtain ⟨tail, rest, htail, hcut⟩ := h
  have hinner : inner <+: tail := by
    rw [Text.eq_of_cut?_eq_some hcut, List.append_assoc]
    exact List.prefix_append _ _
  exact (hinner.isInfix.trans (List.suffix_append opening tail).isInfix).trans htail.isInfix

/-- A text without placeholders is tidy when no braces are nested. -/
theorem tidy_of_absent {text : Text} (h : Unnested text) (habsent : Placeholder.Absent text) :
    Tidy text := by
  intro inner hinner
  refine ⟨h inner hinner, List.eq_nil_iff_forall_not_mem.mpr fun placeholder hm => ?_⟩
  have hmore := Placeholder.references_subset_of_isInfix hinner.isInfix hm
  rw [Placeholder.references_eq_nil_of_absent habsent] at hmore
  cases hmore

/-- Braces in a text with a braceless part in the middle stand behind the part or before it. -/
private theorem suffix_insert_cases {before mark after tail : Text} (hmark : '{' ∉ mark)
    (hne : mark ≠ []) (h : opening ++ tail <:+ before ++ mark ++ after) :
    opening ++ tail <:+ after ∨
      ∃ front, opening ++ front <:+ before ∧ tail = front ++ mark ++ after := by
  induction before with
  | nil =>
    left
    rw [List.nil_append] at h
    clear hne
    induction mark with
    | nil => exact h
    | cons c mark ih =>
      rw [List.mem_cons, not_or] at hmark
      rcases List.suffix_cons_iff.mp h with he | h
      · exact absurd (List.cons.inj he).1 hmark.1
      · exact ih hmark.2 h
  | cons c before ih =>
    rcases List.suffix_cons_iff.mp h with he | h
    · right
      -- The first brace is `c`, and the second one is no part of the mark.
      cases before with
      | nil =>
        obtain ⟨d, mark, rfl⟩ := List.exists_cons_of_ne_nil hne
        have he : '{' :: '{' :: tail = c :: d :: (mark ++ after) := he
        rw [List.cons.injEq, List.cons.injEq] at he
        exact absurd (he.2.1 ▸ List.mem_cons_self) hmark
      | cons d before =>
        have he : '{' :: '{' :: tail = c :: d :: (before ++ mark ++ after) := he
        rw [List.cons.injEq, List.cons.injEq] at he
        obtain ⟨rfl, rfl, rfl⟩ := he
        exact ⟨before, List.suffix_refl _, rfl⟩
    · rcases ih h with h | ⟨front, hfront, he⟩
      · exact .inl h
      · exact .inr ⟨front, hfront.trans (List.suffix_cons _ _), he⟩

/-- A text stays tidy when something that starts with two braces is replaced by a placeholder. -/
theorem Tidy.replace {before source after : Text} (h : Tidy (before ++ source ++ after))
    (hsource : opening <+: source) {placeholder : Placeholder}
    (hm : Placeholder.isMarker placeholder.marker = true) :
    Tidy (before ++ placeholder.render ++ after) := by
  obtain ⟨mid, hrender, hmid⟩ := Placeholder.render_edges hm
  have hedge {c : Char} (hc : Placeholder.isEdge c = true) (hne : c ≠ '<' ∧ c ≠ '>') :
      c ∉ placeholder.render := by
    rw [hrender]
    intro hmem
    simp only [List.mem_cons, List.mem_append, List.not_mem_nil, or_false, hne, false_or] at hmem
    rcases hmem with rfl | hmem
    · exact absurd hc (by decide)
    · rw [hmid c hmem] at hc
      cases hc
  have hmark : '{' ∉ placeholder.render := hedge (by decide) (by decide)
  have hne : placeholder.render ≠ [] := hrender ▸ List.cons_ne_nil _ _
  rintro inner ⟨tail, rest, htail, hcut⟩
  rcases suffix_insert_cases hmark hne htail with hafter | ⟨front, hfront, rfl⟩
  · exact h inner (InBraces.of_isInfix ⟨tail, rest, hafter, hcut⟩
      (List.suffix_append _ after).isInfix)
  · have htail : opening ++ (front ++ (source ++ after)) <:+ before ++ source ++ after := by
      obtain ⟨start, rfl⟩ := hfront
      exact ⟨start, by simp only [List.append_assoc]⟩
    rw [List.append_assoc] at hcut
    cases hclosed : Text.cut? closing front with
    | some pair =>
      -- The braces are closed before the placeholder, and so they were before.
      obtain ⟨found, back⟩ := pair
      have hnew := Text.cut?_append_of_eq_some hclosed (placeholder.render ++ after)
      obtain ⟨rfl, -⟩ := Prod.mk.inj (Option.some.inj (hcut.symm.trans hnew))
      exact h inner ⟨_, _, htail, Text.cut?_append_of_eq_some hclosed (source ++ after)⟩
    | none =>
      -- The braces are closed behind the placeholder, so the source stood inside them.
      exfalso
      have hfree := Text.cut?_eq_none_iff.mp hclosed
      obtain ⟨body, rfl⟩ := hsource
      have hold : Text.cut? closing (front ++ (opening ++ body ++ after)) =
          (Text.cut? closing (body ++ after)).map fun pair =>
            (front ++ '{' :: '{' :: pair.1, pair.2) := by
        have hfirst := Text.cut?_append_cons (show '{' ∉ closing by decide) hfree
          ('{' :: (body ++ after))
        have hsecond := Text.cut?_append_cons (show '{' ∉ closing by decide)
          (show ¬closing <:+: [] by decide) (body ++ after)
        have hshape :
            front ++ (opening ++ body ++ after) = front ++ '{' :: '{' :: (body ++ after) := rfl
        rw [List.nil_append] at hsecond
        rw [hshape, closing, hfirst, hsecond, Option.map_map]
        rfl
      cases hbody : Text.cut? closing (body ++ after) with
      | some pair =>
        rw [hbody, Option.map_some] at hold
        refine (h _ ⟨_, _, htail, hold⟩).1 ⟨front, pair.1, ?_⟩
        simp only [opening, List.append_assoc, List.cons_append, List.nil_append]
      | none =>
        have hnone := Text.cut?_eq_none_iff.mp hbody
        have hsome : closing <:+: front ++ (placeholder.render ++ after) := by
          rw [Text.eq_of_cut?_eq_some hcut]
          exact List.infix_append _ _ _
        refine hnone ((?_ : closing <:+: after).trans (List.suffix_append body after).isInfix)
        rw [hrender, List.cons_append, Text.isInfix_append_cons_iff (by decide)] at hsome
        refine Text.isInfix_of_append_left (hsome.resolve_left hfree) fun hmem => ?_
        have hbrace : '}' ∉ placeholder.render := hedge (by decide) (by decide)
        exact hbrace (hrender ▸ List.mem_cons_of_mem _ hmem)

/-! ## Tokens mention nothing -/

/-- The text stands in braces and mentions no placeholder. -/
structure Mute (token : Text) : Prop where
  braces : ∃ mid, token = '{' :: (mid ++ ['}'])
  silent : Placeholder.references token = []

/-- What is mentioned around a mute text is mentioned on one of its sides. -/
theorem Mute.mem_references {token : Text} (h : Mute token) {placeholder : Placeholder}
    {left right : Text} (hm : placeholder ∈ Placeholder.references (left ++ token ++ right)) :
    placeholder ∈ Placeholder.references left ∨ placeholder ∈ Placeholder.references right := by
  obtain ⟨mid, rfl⟩ := h.braces
  have hbefore : Placeholder.Sealed left ('{' :: (mid ++ ['}']) ++ right) :=
    .inl fun c hc => .inr (Option.some.inj hc).symm
  have hafter : Placeholder.Sealed ('{' :: (mid ++ ['}'])) right := by
    refine .inr fun c hc => .inr ?_
    rw [← List.cons_append, List.getLast?_concat] at hc
    exact (Option.some.inj hc).symm
  rw [List.append_assoc, Placeholder.mem_references_append_iff hbefore,
    Placeholder.mem_references_append_iff hafter, h.silent] at hm
  rcases hm with hm | hm | hm
  · exact .inl hm
  · cases hm
  · exact .inr hm

/-- What is mentioned from a mute text on is mentioned behind it. -/
theorem Mute.mem_references_right {token : Text} (h : Mute token) {placeholder : Placeholder}
    {right : Text} (hm : placeholder ∈ Placeholder.references (token ++ right)) :
    placeholder ∈ Placeholder.references right := by
  rw [← List.nil_append token] at hm
  exact (h.mem_references hm).resolve_left fun hnil => nomatch hnil

/-- What is mentioned up to the end of a mute text is mentioned before it. -/
theorem Mute.mem_references_left {token : Text} (h : Mute token) {placeholder : Placeholder}
    {left : Text} (hm : placeholder ∈ Placeholder.references (left ++ token)) :
    placeholder ∈ Placeholder.references left := by
  rw [← List.append_nil (left ++ token)] at hm
  exact (h.mem_references hm).resolve_right fun hnil => nomatch hnil

/-- In a tidy text a header mentions nothing. -/
theorem Tidy.mute_header {text keyword inner : Text} (h : Tidy text) (hkeyword : '}' ∉ keyword)
    (hinner : ¬closing <:+: inner ++ ['}'])
    (htoken : opening ++ keyword ++ inner ++ closing <:+: text) :
    Mute (opening ++ keyword ++ inner ++ closing) := by
  have hbraces : InBraces (keyword ++ inner) (opening ++ keyword ++ inner ++ closing) := by
    refine ⟨keyword ++ inner ++ closing, [], ?_, ?_⟩
    · simp only [List.append_assoc, List.suffix_refl]
    · rw [← List.append_nil (keyword ++ inner ++ closing)]
      refine Text.cut?_of_not_infix [] fun hpart => hinner ?_
      rw [List.append_assoc] at hpart
      exact Text.isInfix_of_append_left hpart hkeyword
  refine ⟨⟨'{' :: (keyword ++ inner ++ ['}']), ?_⟩,
    List.eq_nil_iff_forall_not_mem.mpr fun placeholder hm => ?_⟩
  · simp only [opening, closing, List.append_assoc, List.cons_append, List.nil_append]
  · have hsplit : opening ++ keyword ++ inner ++ closing =
        ([] ++ '{' :: ([] ++ '{' :: ((keyword ++ inner) ++ '}' :: ([] ++ '}' :: [])))) := by
      simp only [opening, closing, List.append_assoc, List.cons_append, List.nil_append]
    rw [hsplit] at hm
    simp only [
      Placeholder.mem_references_append_cons_iff (show Placeholder.isSpelling '{' = false by decide),
      Placeholder.mem_references_append_cons_iff (show Placeholder.isSpelling '}' = false by decide),
      (h _ (hbraces.of_isInfix htoken)).2, Placeholder.references_nil, List.not_mem_nil,
      or_self] at hm

/-- A header ends at the first closing braces. -/
theorem not_isInfix_of_header? {keyword text inner rest : Text}
    (h : header? keyword text = some (inner, rest)) : ¬closing <:+: inner ++ ['}'] := by
  simp only [header?, Option.bind_eq_bind, Option.bind_eq_some_iff] at h
  obtain ⟨after, -, h⟩ := h
  split at h
  · cases h
  · split at h
    · exact Text.not_isInfix_of_cut?_eq_some h
    · cases h

/-- A token of a conditional is a closing token or a header. -/
theorem ReadAs.cases {token : Text} {kind : ConditionalToken} (h : ReadAs token kind) :
    token = ifClosing ∨ ∃ keyword inner, '}' ∉ keyword ∧ ¬closing <:+: inner ++ ['}'] ∧
      token = opening ++ keyword ++ inner ++ closing := by
  obtain ⟨rest, h⟩ := h
  have hheader {keyword inner after : Text} (hkeyword : '}' ∉ keyword)
      (hread : header? (opening ++ keyword) (token ++ rest) = some (inner, after))
      (hlength : headerLength (opening ++ keyword) inner = token.length) :
      ∃ keyword inner, '}' ∉ keyword ∧ ¬closing <:+: inner ++ ['}'] ∧
        token = opening ++ keyword ++ inner ++ closing := by
    refine ⟨keyword, inner, hkeyword, not_isInfix_of_header? hread, ?_⟩
    rw [← take_headerLength (opening ++ keyword) inner after, ← eq_of_header?_eq_some hread,
      hlength, List.take_left]
  unfold conditionalToken at h
  split at h
  · next hclosing =>
    left
    obtain ⟨after, hafter⟩ := Option.isSome_iff_exists.mp hclosing
    have hlength := (Prod.mk.inj (Option.some.inj h)).2
    have htext := Text.after?_eq_some_iff.mp hafter
    have htake : (token ++ rest).take token.length =
        (ifClosing ++ after).take ifClosing.length := by
      rw [htext, hlength]
    rwa [List.take_left, List.take_left] at htake
  right
  split at h
  · next inner after hread =>
    exact hheader (show '}' ∉ ['@', 'i', 'f'] by decide) hread (Prod.mk.inj (Option.some.inj h)).2
  split at h
  · next inner after hread =>
    exact hheader (show '}' ∉ [':', 'e', 'l', 's', 'e', 'i', 'f'] by decide) hread
      (Prod.mk.inj (Option.some.inj h)).2
  split at h
  · next inner after hread =>
    obtain ⟨branch, -, he⟩ := Option.map_eq_some_iff.mp h
    exact hheader (show '}' ∉ [':', 'e', 'l', 's', 'e'] by decide) hread (Prod.mk.inj he).2
  · cases h

/-- The token that closes a conditional mentions nothing. -/
theorem mute_ifClosing : Mute ifClosing := ⟨⟨['{', '/', 'i', 'f', '}'], rfl⟩, by decide⟩

private theorem mute_eachClosing : Mute eachClosing :=
  ⟨⟨['{', '/', 'e', 'a', 'c', 'h', '}'], rfl⟩, by decide⟩

/-- In a tidy text the tokens of conditionals mention nothing. -/
theorem ReadAs.mute {token text : Text} {kind : ConditionalToken} (h : ReadAs token kind)
    (htidy : Tidy text) (htoken : token <:+: text) : Mute token := by
  rcases h.cases with rfl | ⟨keyword, inner, hkeyword, hinner, rfl⟩
  · exact mute_ifClosing
  · exact htidy.mute_header hkeyword hinner htoken

/-! ## Sources mention what their bodies mention -/

private theorem mem_references_arms {arms : List Arm} (hmute : ∀ arm ∈ arms, Mute arm.token)
    {placeholder : Placeholder} {left : Text}
    (hm : placeholder ∈ Placeholder.references
      (left ++ arms.flatMap fun arm => arm.token ++ arm.body)) :
    placeholder ∈ Placeholder.references left ∨
      ∃ arm ∈ arms, placeholder ∈ Placeholder.references arm.body := by
  induction arms generalizing left with
  | nil =>
    rw [List.flatMap_nil, List.append_nil] at hm
    exact .inl hm
  | cons arm arms ih =>
    rw [List.flatMap_cons, List.append_assoc, ← List.append_assoc] at hm
    rcases (hmute arm List.mem_cons_self).mem_references hm with hm | hm
    · exact .inl hm
    · rcases ih (fun other hother => hmute other (List.mem_cons_of_mem _ hother)) hm with
        hm | ⟨other, ho, hm⟩
      · exact .inr ⟨arm, List.mem_cons_self, hm⟩
      · exact .inr ⟨other, List.mem_cons_of_mem _ ho, hm⟩

/-- In a tidy text what a conditional mentions is mentioned in one of its bodies. -/
theorem Tidy.mem_references_conditional {text source : Text} {conditional : Conditional}
    (h : Tidy text) (hitem : .item source conditional ∈ conditionals text)
    {placeholder : Placeholder} (hm : placeholder ∈ Placeholder.references source) :
    ∃ body ∈ conditional.bodies.map Text.trim, placeholder ∈ Placeholder.references body := by
  obtain ⟨⟨tail, -, rfl⟩, hread⟩ := isRead_of_mem_conditionals hitem
  have hpiece := Segment.isInfix_of_mem hitem
  rw [sources_conditionals] at hpiece
  have htoken : Mute conditional.token := by
    refine hread.token.mute h (List.IsInfix.trans ?_ hpiece)
    rw [List.append_assoc]
    exact (List.prefix_append _ _).isInfix
  have harms : ∀ arm ∈ conditional.arms, Mute arm.token := by
    intro arm harm
    refine (hread.arms arm harm).mute h (List.IsInfix.trans ?_ hpiece)
    obtain ⟨before, after, he⟩ := List.append_of_mem harm
    refine List.IsInfix.trans ?_
      (List.infix_append conditional.token conditional.interior ifClosing)
    refine ⟨conditional.body ++ before.flatMap (fun arm => arm.token ++ arm.body),
      arm.body ++ after.flatMap (fun arm => arm.token ++ arm.body), ?_⟩
    simp only [Conditional.interior, he, List.flatMap_append, List.flatMap_cons, List.append_assoc]
  have hbody (body : Text) (hb : body ∈ conditional.bodies)
      (hmention : placeholder ∈ Placeholder.references body) :
      ∃ body ∈ conditional.bodies.map Text.trim, placeholder ∈ Placeholder.references body :=
    ⟨body.trim, List.mem_map_of_mem hb, Placeholder.mem_references_trim_iff.mpr hmention⟩
  have hinterior := htoken.mem_references_right (mute_ifClosing.mem_references_left hm)
  rcases mem_references_arms harms hinterior with hm | ⟨arm, harm, hm⟩
  · exact hbody conditional.body List.mem_cons_self hm
  · exact hbody arm.body (List.mem_cons_of_mem _ (List.mem_map_of_mem harm)) hm

private theorem header_of_mem_loops {pieces : List Text} {source : Text} {loop : Loop}
    (h : .item source loop ∈ loopsOf pieces) : ¬closing <:+: loop.header ++ ['}'] := by
  fun_induction loopsOf pieces with
  | case1 => cases h
  | case2 last => simp [Segment.plain] at h
  | case3 text rest _ ih =>
    rcases List.mem_append.mp h with h | h
    · unfold closedLoop at h
      dsimp only at h
      split at h
      · next before header body hloop =>
        simp only [Segment.plain, List.mem_append, List.mem_map, reduceCtorEq, and_false,
          exists_false, List.mem_singleton, Segment.item.injEq, false_or] at h
        obtain ⟨-, rfl⟩ := h
        simp only [Option.bind_eq_bind, Option.bind_eq_some_iff, Prod.exists, Option.pure_def,
          Option.some.injEq, Prod.mk.injEq] at hloop
        obtain ⟨front, back, -, inner, after, hheader, rfl, rfl, rfl⟩ := hloop
        exact not_isInfix_of_header? hheader
      · simp [Segment.plain] at h
    · exact ih h

/-- In a tidy text what a loop mentions is mentioned in its body. -/
theorem Tidy.mem_references_loop {text source : Text} {loop : Loop} (h : Tidy text)
    (hitem : .item source loop ∈ loops text) {placeholder : Placeholder}
    (hm : placeholder ∈ Placeholder.references source) :
    placeholder ∈ Placeholder.references loop.body.trim := by
  have hpiece := Segment.isInfix_of_mem hitem
  rw [sources_loops] at hpiece
  have hheader := header_of_mem_loops hitem
  rw [source_of_mem_loopsOf hitem] at hm hpiece
  have hkeyword : '}' ∉ ['@', 'e', 'a', 'c', 'h'] := by decide
  have htoken : Mute (eachKeyword ++ loop.header ++ closing) := by
    refine h.mute_header hkeyword hheader (List.IsInfix.trans ?_ hpiece)
    rw [Loop.source, List.append_assoc (_ ++ closing)]
    exact (List.prefix_append _ _).isInfix
  have hbody := htoken.mem_references_right (mute_eachClosing.mem_references_left hm)
  exact Placeholder.mem_references_trim_iff.mpr hbody

/-- In a tidy text raw markup mentions nothing. -/
theorem Tidy.mute_rawMarkup {text source content : Text} (h : Tidy text)
    (hitem : .item source content ∈ Segment.segments rawMarkup text) : Mute source := by
  have hpiece := Segment.isInfix_of_mem hitem
  rw [Segment.sources_segments] at hpiece
  obtain ⟨tail, length, hr, rfl⟩ := Segment.exists_of_mem_scan hitem
  simp only [rawMarkup, Option.bind_eq_bind, Option.bind_eq_some_iff, Prod.exists] at hr
  obtain ⟨inner, rest, hheader, hr⟩ := hr
  split at hr
  · cases hr
  · simp only [Option.pure_def, Option.some.injEq, Prod.mk.injEq] at hr
    obtain ⟨-, rfl⟩ := hr
    rw [eq_of_header?_eq_some hheader, take_headerLength] at hpiece ⊢
    have hkeyword : '}' ∉ ['@', 'h', 't', 'm', 'l'] := by decide
    exact h.mute_header hkeyword (not_isInfix_of_header? hheader) hpiece

/-- In a tidy text interpolations mention nothing. -/
theorem Tidy.mute_interpolation {text source expression : Text} (h : Tidy text)
    (hitem : .item source expression ∈ Segment.segments interpolation text) : Mute source := by
  have hpiece := Segment.isInfix_of_mem hitem
  rw [Segment.sources_segments] at hpiece
  obtain ⟨inner, hinner, rfl⟩ := exists_of_mem_interpolation hitem
  have hcut : Text.cut? closing (inner ++ closing ++ []) = some (inner, []) :=
    Text.cut?_of_not_mem hinner.noBrace
  have hmute := h.mute_header List.not_mem_nil (Text.not_isInfix_of_cut?_eq_some hcut)
    (by rwa [List.append_nil])
  rwa [List.append_nil] at hmute

end ComponentFile.Template
