import ComponentFile.Proofs.Outline.Tokens

/-!
# Loop headers

A header is split at the first word `as` that stands alone, and what follows it at the first comma.
A well-formed header has neither before the place where it was put together, so reading gives it
back.
-/

namespace ComponentFile.Template

/-- A text is split at the word `as` after a part in which it does not stand alone. -/
private theorem splitBindingFrom_append {binding : Text}
    (hbinding : binding.head?.all isSpace = true) {before text : Text}
    (h : NoBinding (before.reverse ++ text)) :
    splitBindingFrom before (text ++ ' ' :: 'a' :: 's' :: binding) =
      some (before.reverse ++ text ++ [' '], binding) := by
  induction text generalizing before with
  | nil =>
    have hword : Text.after? ['a', 's'] (' ' :: 'a' :: 's' :: binding) = none := rfl
    have hfound : Text.after? ['a', 's'] ('a' :: 's' :: binding) = some binding :=
      Text.after?_append ['a', 's'] binding
    have hspace : ((' ' :: before).head?.any isSpace && binding.head?.all isSpace) = true := by
      rw [hbinding]
      rfl
    rw [List.nil_append, splitBindingFrom, hword]
    simp only [splitBindingFrom, hfound, hspace, if_true, List.reverse_cons, List.append_nil]
  | cons c text ih =>
    have hnext : splitBindingFrom (c :: before) (text ++ ' ' :: 'a' :: 's' :: binding) =
        some (before.reverse ++ c :: text ++ [' '], binding) := by
      have hrest := @ih (c :: before) (by simpa using h)
      simpa using hrest
    rw [List.cons_append, splitBindingFrom]
    split
    · next found hfound =>
      -- the word stands here, but not alone
      have hword := Text.after?_eq_some_iff.mp hfound
      have halone : (before.head?.any isSpace && found.head?.all isSpace) = false := by
        cases before with
        | nil => rfl
        | cons space before =>
          cases hspace : isSpace space with
          | false => simp [hspace]
          | true =>
            obtain ⟨hc, htail⟩ := List.cons.inj hword
            cases text with
            | nil => simp at htail
            | cons d text =>
              obtain ⟨hd, htail⟩ := List.cons.inj htail
              obtain ⟨e, rest, rfl, he⟩ := h before.reverse space text (by simp [hc, hd]) hspace
              rw [← show _ = found from htail]
              simp [he]
      rw [halone, if_neg Bool.false_ne_true, hnext]
    · exact hnext

/-- Names are not blank at their ends. -/
theorem IsName.getLast {name : Text} (h : IsName name) :
    ∀ c ∈ name.getLast?, isBlank c = false := by
  have hlast := Text.isBlank_getLast_trim name
  rwa [h.trim_eq] at hlast

/-- The binding of a header is not blank at its end. -/
theorem LoopHeader.WellFormed.getLast_binding {header : LoopHeader} (h : header.WellFormed) :
    header.binding ≠ [] ∧ ∀ c ∈ header.binding.getLast?, isBlank c = false := by
  unfold binding
  cases hname : header.indexName with
  | none =>
    refine ⟨List.cons_ne_nil _ _, fun c hc => ?_⟩
    rw [← List.singleton_append, List.getLast?_append_of_ne_nil _ h.item.ne_nil] at hc
    exact h.item.getLast c hc
  | some name =>
    have hindex := h.indexName name hname
    refine ⟨List.cons_ne_nil _ _, fun c hc => ?_⟩
    have hend : ' ' :: header.item ++ [','] ++ (' ' :: name) =
        ' ' :: header.item ++ [',', ' '] ++ name := by
      simp only [List.append_assoc, List.cons_append, List.nil_append]
    simp only [hend] at hc
    rw [List.getLast?_append_of_ne_nil _ hindex.ne_nil] at hc
    exact hindex.getLast c hc

/-- A header without the blank in front of it is trimmed. -/
theorem LoopHeader.WellFormed.trim_inner {header : LoopHeader} (h : header.WellFormed) :
    header.inner.trim = header.iterable ++ [' ', 'a', 's'] ++ header.binding := by
  obtain ⟨hne, hlast⟩ := h.getLast_binding
  rw [inner, Text.trim_cons_of_blank rfl, Text.trim_eq_self]
  · intro c hc
    have hfirst := Text.isBlank_head_trim header.iterable
    rw [h.iterable.trim_eq] at hfirst
    obtain ⟨d, tail, he⟩ := List.exists_cons_of_ne_nil h.iterable.ne_nil
    rw [he] at hc hfirst
    exact hfirst c hc
  · intro c hc
    rw [List.getLast?_append_of_ne_nil _ hne] at hc
    exact hlast c hc

/-- Reading a well-formed header gives it back. -/
theorem LoopHeader.parse_inner {header : LoopHeader} (h : header.WellFormed) :
    LoopHeader.parse header.inner = header := by
  have hspace : header.binding.head?.all isSpace = true := by
    unfold binding
    cases header.indexName <;> rfl
  have hsplit : splitBindingFrom [] (header.iterable ++ [' ', 'a', 's'] ++ header.binding) =
      some (header.iterable ++ [' '], header.binding) := by
    rw [List.append_assoc]
    exact splitBindingFrom_append hspace h.no_binding
  have hiterable : Text.trim (header.iterable ++ [' ']) = header.iterable := by
    have hpad := Text.trim_append_of_blank header.iterable
      (show Text.isBlankText [' '] = true from rfl)
    rwa [h.iterable.trim_eq] at hpad
  have hitem : Text.trim (' ' :: header.item) = header.item := by
    rw [Text.trim_cons_of_blank rfl, h.item.trim_eq]
  have hcomma : ',' ∉ ' ' :: header.item := by
    rw [List.mem_cons, not_or]
    exact ⟨by decide, h.no_comma⟩
  rw [parse, h.trim_inner, hsplit]
  cases header with
  | mk iterable item indexName =>
    cases indexName with
    | none =>
      have hcut : Text.cut? [','] (binding ⟨iterable, item, none⟩) = none :=
        Text.cut?_singleton_of_not_mem hcomma
      simp only [hcut, hiterable]
      simp only [binding, hitem]
    | some name =>
      have hname := h.indexName name rfl
      have hcut : Text.cut? [','] (binding ⟨iterable, item, some name⟩) =
          some (' ' :: item, ' ' :: name) := Text.cut?_of_not_mem hcomma
      have hblank : Text.isBlankText (' ' :: name) = false := by
        rw [Text.isBlankText_cons, Text.isBlankText_of_trim_eq hname.ne_nil hname.trim_eq,
          Bool.and_false]
      have htrim : Text.trim (' ' :: name) = name := by
        rw [Text.trim_cons_of_blank rfl, hname.trim_eq]
      simp only [hcut, hiterable, hitem, hblank, htrim, Bool.false_eq_true, if_false]

end ComponentFile.Template
