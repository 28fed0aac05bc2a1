import ComponentFile.Proofs.Template.Balance
import ComponentFile.Proofs.Template.Processing

/-!
# What the sources of block directives look like

Whatever the text, the source of a conditional is its opening token, its balanced bodies with the
tokens of its arms between them, and the closing token; the source of a loop is a header, a body and
the closing token, and neither of the two holds a token of another loop. Each directive is added by
one pass, so what the items of every pass have in common holds of all directives of a template.
-/

namespace ComponentFile

/-- How an arm after the first begins. -/
def BranchKind.ofCondition : Option Text → BranchKind
  | some condition => .elseIf condition
  | none => .otherwise

namespace Template

/-! ## The parts of a block directive -/

/-- The conditional was read from the source and became the branches: the source is the opening
token, the bodies with the tokens of the further arms between them, and the closing token, and each
body is balanced. -/
structure Conditional.Describes (conditional : Conditional) (source condition : Text)
    (branches : List Branch) : Prop where
  source_eq : source = conditional.token ++ conditional.body ++
    (conditional.arms.flatMap fun arm => arm.token ++ arm.body) ++ ifClosing
  condition_eq : condition = conditional.condition
  token : (ConditionalToken.opened conditional.condition).Written conditional.token
  arms : ∀ arm ∈ conditional.arms, (ConditionalToken.branch arm.condition).Written arm.token
  kinds_eq : branches.map Branch.kind = .primary :: conditional.arms.map fun arm =>
    .ofCondition arm.condition
  bodies_eq : branches.map Branch.body = conditional.bodies.map Text.trim
  balanced : ∀ body ∈ conditional.bodies, IsBalanced body

/-- The loop was read from the source and became the directive: the source is the header token, the
body and the closing token, and neither the header nor the body holds a token of a loop. -/
structure Loop.Describes (loop : Loop) (source iterable item : Text) (indexName : Option Text)
    (body : Text) : Prop where
  source_eq : source = eachKeyword ++ loop.header ++ closing ++ loop.body ++ eachClosing
  names_eq : LoopHeader.parse loop.header = { iterable, item, indexName }
  body_eq : body = loop.body.trim
  header : ¬eachKeyword <:+: loop.header ∧ ¬eachClosing <:+: loop.header
  body : ¬eachKeyword <:+: loop.body ∧ ¬eachClosing <:+: loop.body

/-- Block directives are made up of their parts. -/
def HasParts : DirectiveKind → Text → Prop
  | .conditional condition branches, source =>
    ∃ conditional : Conditional, conditional.Describes source condition branches
  | .loop iterable item indexName body _, source =>
    ∃ loop : Loop, loop.Describes source iterable item indexName body
  | .interpolation _, _ | .rawMarkup _, _ | .component _ _ _ _, _ => True

/-- The span of a directive is as long as its source, and the source is made up of its parts. -/
structure HasAnatomy (directive : Directive) : Prop where
  start_le_stop : directive.start ≤ directive.stop
  stop_sub_start : directive.stop - directive.start = directive.source.byteSize
  parts : HasParts directive.kind directive.source

/-! ## What one pass reads -/

private theorem map_kind_branchesOf (process : Pass) (arms : List Arm) (registry : Registry) :
    (branchesOf process arms registry).1.map Branch.kind =
      arms.map fun arm => .ofCondition arm.condition := by
  induction arms generalizing registry with
  | nil => rfl
  | cons arm arms ih =>
    rw [List.map_cons, ← ih]
    cases hcondition : arm.condition <;>
      simp only [branchesOf, branchOf, hcondition, List.map_cons] <;> rfl

private theorem hasParts_conditionalKind {text source : Text} {conditional : Conditional}
    (h : .item source conditional ∈ conditionals text) (process : Pass) (registry : Registry) :
    HasParts (conditionalKind process conditional registry).1 source := by
  obtain ⟨⟨_, -, hsource⟩, hread⟩ := isRead_of_mem_conditionals h
  refine ⟨conditional, ?_, rfl, hread.token.written,
    fun arm hm => (hread.arms arm hm).written, ?_, ?_,
    isBalanced_of_mem_conditionals h⟩
  · rw [hsource, Conditional.interior]
    simp only [List.append_assoc]
  · rw [List.map_cons, map_kind_branchesOf]
  · rw [List.map_cons, map_body_branchesOf]
    rfl

private theorem not_isInfix_of_mem_loopsOf {pieces : List Text}
    (hpieces : ∀ piece ∈ pieces, ¬eachClosing <:+: piece) {source : Text} {loop : Loop}
    (h : .item source loop ∈ loopsOf pieces) :
    ∃ inner, loop.header <:+: inner ∧ loop.body <:+: inner ∧ ¬eachKeyword <:+: inner ∧
      ¬eachClosing <:+: inner := by
  fun_induction loopsOf pieces with
  | case1 => cases h
  | case2 last => simp [Segment.plain] at h
  | case3 text rest _ ih =>
    rcases List.mem_append.mp h with h | h
    · unfold closedLoop at h
      dsimp only at h
      split at h
      · next before header body hloop =>
        simp only [Segment.plain, List.mem_append, List.mem_map, reduceCtorEq, and_false,
          exists_false, List.mem_singleton, Segment.item.injEq, false_or] at h
        obtain ⟨-, rfl⟩ := h
        simp only [Option.bind_eq_bind, Option.bind_eq_some_iff, Prod.exists, Option.pure_def,
          Option.some.injEq, Prod.mk.injEq] at hloop
        obtain ⟨front, back, hcut, inner, after, hheader, rfl, rfl, rfl⟩ := hloop
        -- What follows the last keyword is the header, its closing braces and the body.
        have hback : back = inner ++ closing ++ after := by
          have htext := eq_of_header?_eq_some hheader
          rw [List.append_assoc, List.append_assoc, List.append_cancel_left_eq] at htext
          rw [htext, List.append_assoc]
        have hpiece : back <:+: text := by
          rw [Text.eq_of_cutLast?_eq_some hcut]
          exact (List.suffix_append _ _).isInfix
        refine ⟨back, ?_, ?_, Text.not_isInfix_of_cutLast?_eq_some hcut, fun hclosing => ?_⟩
        · rw [hback, List.append_assoc]
          exact (List.prefix_append _ _).isInfix
        · rw [hback]
          exact (List.suffix_append _ _).isInfix
        · exact hpieces text List.mem_cons_self (hclosing.trans hpiece)
      · simp [Segment.plain] at h
    · exact ih (fun piece hm => hpieces piece (List.mem_cons_of_mem _ hm)) h

private theorem hasParts_loopKind {text source : Text} {loop : Loop}
    (h : .item source loop ∈ loops text) (process : Pass) (registry : Registry) :
    HasParts (loopKind process loop registry).1 source := by
  have hpieces : ∀ piece ∈ Text.pieces eachClosing text, ¬eachClosing <:+: piece := fun _ hm =>
    Text.not_isInfix_of_mem_pieces (by decide) hm
  obtain ⟨inner, hheader, hbody, hkeyword, hclosing⟩ := not_isInfix_of_mem_loopsOf hpieces h
  refine ⟨loop, source_of_mem_loopsOf h, rfl, rfl, ?_, ?_⟩
  · exact ⟨fun hm => hkeyword (hm.trans hheader), fun hm => hclosing (hm.trans hheader)⟩
  · exact ⟨fun hm => hkeyword (hm.trans hbody), fun hm => hclosing (hm.trans hbody)⟩

/-! ## What all passes read -/

/-- Every pass over a fragment keeps the anatomy of the directives. -/
theorem traced_hasAnatomy : Traced (KeepsAll HasAnatomy) := by
  have hspan (start : Nat) (source : Text) :
      start ≤ start + source.byteSize ∧ start + source.byteSize - start = source.byteSize :=
    ⟨Nat.le_add_right _ _, Nat.add_sub_cancel_left _ _⟩
  apply traced_keepsAll
  · exact fun hm process registry _ _ =>
      ⟨(hspan _ _).1, (hspan _ _).2, hasParts_conditionalKind hm process registry⟩
  · exact fun hm process registry _ _ =>
      ⟨(hspan _ _).1, (hspan _ _).2, hasParts_loopKind hm process registry⟩
  · exact fun _ _ _ => ⟨(hspan _ _).1, (hspan _ _).2, trivial⟩
  · exact fun _ _ _ => ⟨(hspan _ _).1, (hspan _ _).2, trivial⟩

/-- Every directive of a processed template spans its source, whatever the template is: the source
of a conditional is its tokens and balanced bodies, and that of a loop is its header and body, which
hold no token of another loop. -/
theorem hasAnatomy_process (settings : Settings) (text : Text) :
    ∀ directive ∈ (process settings text).directives.toList, HasAnatomy directive := by
  have hcomponents : Along (KeepsAll HasAnatomy) (replaceComponents settings.runtimeAttribute) :=
    along_keepsAll (fun _ _ _ => id) fun _ _ _ _ _ _ _ =>
      ⟨Nat.le_add_right _ _, Nat.add_sub_cancel_left _ _, trivial⟩
  apply hcomponents
  apply traced_hasAnatomy.processAt settings.passLimit (text.count '{') text #[]
  exact fun directive hm => absurd hm List.not_mem_nil

/-- A conditional with another one in its first arm, between tokens that belong to no
conditional. -/
def strayTokens : Text :=
  ("\x7b\x7b:else\x7d\x7d\x7b\x7b@if a\x7d\x7d" ++
    "\x7b\x7b@if b\x7d\x7d\x7b\x7b:else\x7d\x7d\x7b\x7b/if\x7d\x7d " ++
    "\x7b\x7b:else if c\x7d\x7d d\x7b\x7b/if\x7d\x7d\x7b\x7b/if\x7d\x7d").toList

/-- The outer conditional has its parts, with the inner one in its first body. -/
theorem hasAnatomy_process_strayTokens :
    ∃ directive ∈ (process {} strayTokens).directives.toList,
      directive.start = 9 ∧ directive.stop = 67 ∧ HasAnatomy directive := by
  have hspans : (process {} strayTokens).directives.toList.map
        (fun directive => (directive.start, directive.stop)) =
      [(0, 25), (9, 67)] := by decide +kernel
  have hmem : (9, 67) ∈ (process {} strayTokens).directives.toList.map fun directive =>
      (directive.start, directive.stop) := by
    rw [hspans]
    decide
  obtain ⟨directive, hm, he⟩ := List.mem_map.mp hmem
  obtain ⟨hstart, hstop⟩ := Prod.mk.inj he
  exact ⟨directive, hm, hstart, hstop, hasAnatomy_process {} strayTokens directive hm⟩

end Template

end ComponentFile
