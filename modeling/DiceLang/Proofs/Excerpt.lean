import DiceLang.Proofs.Tree.Extent
import DiceLang.Proofs.Verbatim

/-!
# The text under a span

The span of a node cuts a text out of the one that was read.  For a number or a command this excerpt
is the node: read by itself, it gives the same node again.  An operator goes from its left operand to
its right one, and if either of them stands in parentheses the excerpt starts or ends inside of them.
Then it cannot be read, because its parentheses do not match; if they match, it is the node as well.

`Tree.parse_excerpt` says both.  An excerpt falls into the words of its piece (`tokenize_piece`), and
these can be read because there was room for them in the whole.
-/

namespace DiceLang

/-- The text under a span. -/
def excerpt (text : String) (span : Span) : String :=
  String.ofList (slice text.toList span.start.offset span.stop.offset)

namespace Grammar

section Pieces

variable {limit : Nat} {tokens others front piece back : List Token} {stop : Token} {node read : Tree}

/-- Whether parentheses match can be told from the kinds of tokens. -/
theorem Matched.of_kinds (h : Matched tokens)
    (hkinds : others.map Token.kind = tokens.map Token.kind) : Matched others := by
  have hcount : ∀ (list : List Token) (kind : Kind),
      (list.map Token.kind).countP (· == kind) = list.countP (isKind kind) := by
    intro list kind
    rw [List.countP_map]
    rfl
  have hsame : ∀ n kind,
      (others.take n).countP (isKind kind) = (tokens.take n).countP (isKind kind) := by
    intro n kind
    rw [← hcount, ← hcount, List.map_take, List.map_take, hkinds]
  constructor
  · intro front hfront
    rw [List.prefix_iff_eq_take.mp hfront, hsame, hsame]
    exact h.opened _ (List.take_prefix _ _)
  · have hbalanced := h.balanced
    unfold Balanced at hbalanced ⊢
    rw [← hcount, ← hcount, hkinds, hcount, hcount, hbalanced]

/-- The end token is no parenthesis. -/
theorem matched_append_stop (hstop : stop.kind = .eof) :
    Matched (piece ++ [stop]) ↔ Matched piece := by
  have hnone : Matched [stop] := by
    refine .of_no_parentheses (List.forall_mem_singleton.mpr ?_)
    simp [hstop]
  constructor
  · intro h
    refine ⟨fun front hfront => h.opened front (hfront.trans (List.prefix_append piece [stop])), ?_⟩
    have hwhole := h.balanced
    have hlast := hnone.balanced
    unfold Balanced at hwhole hlast ⊢
    rw [List.countP_append, List.countP_append] at hwhole
    omega
  · exact fun h => h.append hnone

/-- A piece with its parentheses needs no more room than the whole. -/
theorem Roomy.middle (h : Roomy limit (front ++ (piece ++ back)))
    (hwhole : Matched (front ++ (piece ++ back))) (hpiece : Matched piece) : Roomy limit piece where
  nested := by
    intro before next rest htokens hnext
    have hroom : unclosed (front ++ before) < limit :=
      h.nested (front ++ before) next (rest ++ back) (by simp [htokens]) hnext
    have hfront := hwhole.opened front (List.prefix_append _ _)
    have hbefore := hpiece.opened before ⟨next :: rest, htokens.symm⟩
    simp only [unclosed, List.countP_append] at hroom ⊢
    omega
  short := fun token htoken => h.short token (by simp [htoken])

/-- **A piece is read as the node over it, if its parentheses match.** -/
theorem Delimits.ofTokens (h : Delimits piece node) (hmatched : Matched piece)
    (hroomy : Roomy limit (piece ++ [stop])) (hstop : stop.kind = .eof) :
    ∃ read, Tree.ofTokens limit (piece ++ [stop]) = .ok read ∧ read.Same node :=
  ofTokens_of_roomy hroomy ⟨piece, [], stop, rfl, h.spelt hmatched, nofun, hstop⟩

/-- The parentheses of what is read match. -/
theorem matched_of_ofTokens (hpiece : ∀ token ∈ piece, token.kind ≠ .eof) (hstop : stop.kind = .eof)
    (h : Tree.ofTokens limit (piece ++ [stop]) = .ok read) : Matched (piece ++ [stop]) := by
  have hclosed : Closed (piece ++ [stop]) := (closed_singleton hstop).append hpiece
  obtain ⟨body, gap, last, htokens, hspells, hgap, hlast⟩ := sentence_of_ofTokens hclosed h
  have hrest : Matched (gap ++ [last]) := by
    refine .of_no_parentheses (List.forall_mem_append.mpr ⟨fun token htoken => ?_, ?_⟩)
    · simp [hgap token htoken]
    · simp [hlast]
  rw [htokens]
  exact hspells.matched.append hrest

end Pieces

end Grammar

open Grammar

/-- The end token of a text without words. -/
def Token.stop : Token := ⟨.eof, "", .origin, .origin⟩

section Excerpts

variable {text : String} {tree node : Tree} {piece : List Token}

/-- A text that falls into the words of some tokens says the same as they do. -/
theorem verbatim_of_munches {body : List Char} (h : Munches body (piece.map Token.word)) :
    Verbatim (piece ++ [.stop]) (tokenize (String.ofList body)) := by
  have hcontent : ∀ tokens : List Token, tokens.map Token.content = (tokens.map Token.word).map
      fun word => Token.content ⟨word.1, String.ofList word.2, .origin, .origin⟩ := by
    intro tokens
    rw [List.map_map]
    refine List.map_congr_left fun token _ => ?_
    rw [Function.comp_apply, Token.word, String.ofList_toList]
    rfl
  have hwords : (tokenize (String.ofList body)).map Token.word =
      (piece ++ [Token.stop]).map Token.word := by
    rw [map_tokenize (fun _ => rfl), String.toList_ofList, h.words_eq, List.map_append]
    rfl
  unfold Verbatim
  rw [hcontent, hwords, ← hcontent]

/-- Parentheses match depending on what tokens say. -/
theorem Verbatim.matched_iff {tokens others : List Token} (h : Verbatim tokens others) :
    Matched others ↔ Matched tokens := by
  have hkinds : others.map Token.kind = tokens.map Token.kind := by
    have hfst := congrArg (List.map Prod.fst) h
    rw [List.map_map, List.map_map] at hfst
    exact hfst
  exact ⟨fun hothers => hothers.of_kinds hkinds.symm, fun htokens => htokens.of_kinds hkinds⟩

/-- **Every node has its excerpt.**  It says the same as the piece of the token list that the node
stands over. -/
theorem Tree.exists_excerpt (h : Tree.parse text = .ok tree) (hnode : node ∈ tree.nodes) :
    ∃ span piece, node.span? = some span ∧ Delimits piece node ∧
      (∀ token ∈ piece, token.kind ≠ .eof) ∧ (Matched piece → Roomy nestingLimit (piece ++ [.stop])) ∧
      Verbatim (piece ++ [.stop]) (tokenize (excerpt text span)) := by
  obtain ⟨reading, hreading, rfl⟩ := Tree.ofTokens_eq_ok (mapError_eq_ok h)
  obtain ⟨taken, hoccupies, hread⟩ := expression_sites nestingLimit hreading
  obtain ⟨front, piece, back, rfl, hpiece, -⟩ :=
    hread.wrapped.laid.exists_piece (List.mem_singleton_self _) hnode
  obtain ⟨span, hspan, hover⟩ := hpiece.span
  have hends : ∀ token ∈ front ++ (piece ++ back), token.kind ≠ .eof := hread.spells.kind_ne_eof
  refine ⟨span, piece, hspan, hpiece, fun token htoken => hends token (by simp [htoken]), ?_, ?_⟩
  · intro hmatched
    have hroomy := hread.roomy.middle hread.spells.matched hmatched
    exact hroomy.append hmatched.balanced (.singleton (by decide) (not_overlong (by decide)))
  · have htokens : tokenize text = front ++ (piece ++ (back ++ reading.rest)) := by
      have htakes := hoccupies.takes
      unfold Reading.Takes at htakes
      simpa only [List.append_assoc] using htakes
    have hbefore : ∀ token ∈ front ++ piece, token.kind ≠ .eof := by
      intro token htoken
      rw [← List.append_assoc] at hends
      exact hends token (List.mem_append_left back htoken)
    obtain ⟨before, body, after, htext, hstart, hstop, hmunches⟩ :=
      tokenize_piece htokens hbefore hover
    have hbody : excerpt text span = String.ofList body := by
      rw [excerpt, hstart, hstop, Location.offset_after_origin, Location.offset_after_origin, htext,
        slice_append]
    rw [hbody]
    exact verbatim_of_munches hmunches

/-- **Excerpts are read back.**  Every node of what is read from a text has a span, and the text under
it is read as that node again if its parentheses match.  If they do not, it is refused.  They match for
all nodes but operators, which leave out the parentheses before their left operand and behind their
right one. -/
theorem Tree.parse_excerpt (h : Tree.parse text = .ok tree) :
    ∀ node ∈ tree.nodes, ∃ span, node.span? = some span ∧
      (Matched (tokenize (excerpt text span)) →
        ∃ read, Tree.parse (excerpt text span) = .ok read ∧ read.Same node) ∧
      (¬ Matched (tokenize (excerpt text span)) →
        ∃ failure, Tree.parse (excerpt text span) = .error failure) ∧
      (node.isOperation = false → Matched (tokenize (excerpt text span))) := by
  intro node hnode
  obtain ⟨span, piece, hspan, hpiece, hends, hroomy, hverbatim⟩ := exists_excerpt h hnode
  have hmatched : Matched (tokenize (excerpt text span)) ↔ Matched piece :=
    hverbatim.matched_iff.trans (matched_append_stop rfl)
  have hagree := Tree.ofTokens_agree hverbatim nestingLimit
  refine ⟨span, hspan, ?_, ?_, fun hnode => hmatched.mpr (hpiece.matched hnode)⟩
  · intro hwhole
    have hpart : Matched piece := hmatched.mp hwhole
    obtain ⟨read, hread, hsame⟩ := hpiece.ofTokens hpart (hroomy hpart) rfl
    rw [hread] at hagree
    obtain ⟨other, hother, hagrees⟩ := hagree.exists_ok
    refine ⟨other, ?_, (Eq.symm hagrees).trans hsame⟩
    rw [Tree.parse, hother]
    rfl
  · intro hcut
    cases hparse : Tree.parse (excerpt text span) with
    | error failure => exact ⟨failure, rfl⟩
    | ok other =>
      rw [mapError_eq_ok hparse] at hagree
      obtain ⟨read, hread, -⟩ := hagree.exists_ok_left
      exact absurd (hverbatim.matched_iff.mpr (matched_of_ofTokens hends rfl hread)) hcut

/-- The sum starts with its left operand, inside of the parentheses around it. -/
theorem Tree.parse_excerpt_parenthesised :
    ∃ tree, Tree.parse "(1)+2" = .ok tree ∧ tree.span?.map (excerpt "(1)+2") = some "1)+2" ∧
      ∃ failure, Tree.parse "1)+2" = .error failure := by
  have hread : (Tree.parse "(1)+2").toOption.map (fun tree => tree.span?.map (excerpt "(1)+2")) =
      some (some "1)+2") := by
    decide +kernel
  cases hparse : Tree.parse "(1)+2" with
  | error failure =>
      rw [hparse] at hread
      cases hread
  | ok tree =>
      rw [hparse] at hread
      have htext : tree.span?.map (excerpt "(1)+2") = some "1)+2" := Option.some.inj hread
      obtain ⟨span, hspan, -, hcut, -⟩ := Tree.parse_excerpt hparse tree tree.mem_nodes_self
      rw [hspan] at htext
      have hexcerpt : excerpt "(1)+2" span = "1)+2" := Option.some.inj htext
      rw [hexcerpt] at hcut
      refine ⟨tree, rfl, ?_, hcut (by decide +kernel)⟩
      rw [hspan]
      exact htext

end Excerpts

end DiceLang
