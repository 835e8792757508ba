import DiceLang.Proofs.Program.Laid
import DiceLang.Proofs.Token.Piece

/-!
# Spans nest

The tokens of a text stand one behind the other.  So whatever is laid over them has spans that nest: a
child lies within its parent, and children of one parent lie apart, in the order of the text.

`Line.parse_spans_nest` says so of all that is read from a text, and that a number or a name by itself
is what stands under its span.
-/

namespace DiceLang

/-- Tokens stand one behind the other, and none of them is empty. -/
structure InOrder (tokens : List Token) : Prop where
  ordered : tokens.Pairwise fun first second =>
    first.span.stop.offset ≤ second.span.start.offset
  forward : ∀ token ∈ tokens, token.span.start.offset < token.span.stop.offset

/-- Some of the tokens stand in order if all do. -/
theorem InOrder.sublist {tokens piece : List Token} (h : InOrder tokens)
    (hpiece : piece.Sublist tokens) : InOrder piece where
  ordered := h.ordered.sublist hpiece
  forward := fun token htoken => h.forward token (hpiece.subset htoken)

/-- The tokens of a text are in order, the end token apart. -/
theorem inOrder_tokenize {text : String} {body rest : List Token}
    (h : tokenize text = body ++ rest) (hbody : ∀ token ∈ body, token.kind ≠ .eof) :
    InOrder body where
  ordered := by
    have hstart : (Scanner.ofText text).Passed text.toList [] := ⟨rfl, rfl⟩
    have hordered := (Scanner.tokens_tile hstart).ordered
    change (tokenize text).Pairwise _ at hordered
    rw [h] at hordered
    exact hordered.sublist (List.sublist_append_left body rest)
  forward := by
    intro token htoken
    have hmem : token ∈ tokenize text := h ▸ List.mem_append_left rest htoken
    obtain ⟨before, chars, after, -, -, hstop, -, hshaped⟩ := exists_cut hmem (hbody token htoken)
    obtain ⟨c, word, rfl⟩ := hshaped.exists_cons
    rw [hstop, Location.offset_after, List.length_cons]
    omega

section Over

variable {tokens front back : List Token} {span first last : Span}

/-- Over one token there is no span but its own. -/
theorem Over.eq_span {token : Token} (h : Over [token] span) : span = token.span := by
  obtain ⟨⟨first, hfirst, hstart⟩, last, hlast, hstop⟩ := h
  obtain rfl : token = first := Option.some.inj hfirst
  obtain rfl : token = last := Option.some.inj hlast
  cases span
  simp only at hstart hstop
  rw [← hstart, ← hstop]

/-- A span goes around all tokens that it is over. -/
theorem Over.bounds (h : Over tokens span) (horder : InOrder tokens) : ∀ token ∈ tokens,
    span.start.offset ≤ token.span.start.offset ∧ token.span.stop.offset ≤ span.stop.offset := by
  obtain ⟨⟨first, hfirst, hstart⟩, last, hlast, hstop⟩ := h
  intro token htoken
  have hforward := horder.forward token htoken
  constructor
  · obtain ⟨others, rfl⟩ := List.head?_eq_some_iff.mp hfirst
    have hsecond := horder.forward first List.mem_cons_self
    rw [← hstart]
    rcases List.mem_cons.mp htoken with rfl | hother
    · exact Nat.le_refl _
    · have hbehind := (List.pairwise_cons.mp horder.ordered).1 token hother
      omega
  · obtain ⟨others, rfl⟩ := List.getLast?_eq_some_iff.mp hlast
    have hsecond := horder.forward last (by simp)
    rw [← hstop]
    rcases List.mem_append.mp htoken with hother | hsame
    · have hbehind := (List.pairwise_append.mp horder.ordered).2.2 token hother last (by simp)
      omega
    · rw [List.mem_singleton.mp hsame]

/-- A span over tokens in order is not empty. -/
theorem Over.forward (h : Over tokens span) (horder : InOrder tokens) :
    span.start.offset < span.stop.offset := by
  obtain ⟨token, htoken⟩ := List.exists_mem_of_ne_nil tokens h.ne_nil
  have hforward := horder.forward token htoken
  have hbounds := h.bounds horder token htoken
  omega

/-- The span over some of the tokens lies within the span over all. -/
theorem Over.within {piece : List Token} {inner : Span} (h : Over tokens span)
    (horder : InOrder tokens) (hinner : Over piece inner) (hpiece : piece ⊆ tokens) :
    span.start.offset ≤ inner.start.offset ∧ inner.stop.offset ≤ span.stop.offset := by
  obtain ⟨⟨first, hfirst, hstart⟩, last, hlast, hstop⟩ := hinner
  have hbegin := h.bounds horder first (hpiece (List.mem_of_head? hfirst))
  have hend := h.bounds horder last (hpiece (List.mem_of_getLast? hlast))
  rw [← hstart, ← hstop]
  exact ⟨hbegin.1, hend.2⟩

/-- What is over a front of the tokens ends before what is over the rest. -/
theorem Over.apart (hfirst : Over front first) (hlast : Over back last)
    (horder : InOrder (front ++ back)) : first.stop.offset ≤ last.start.offset := by
  obtain ⟨-, stop, hstop, hend⟩ := hfirst
  obtain ⟨⟨start, hstart, hbegin⟩, -⟩ := hlast
  rw [← hend, ← hbegin]
  exact (List.pairwise_append.mp horder.ordered).2.2 stop (List.mem_of_getLast? hstop) start
    (List.mem_of_head? hstart)

end Over

/-- One node ends before another starts. -/
def Tree.Before (first second : Tree) : Prop :=
  ∀ span ∈ first.span?, ∀ other ∈ second.span?, span.stop.offset ≤ other.start.offset

namespace Laid

variable {tokens : List Token} {trees : List Tree}

/-- Each tree has a span over some of the tokens. -/
theorem exists_span (h : Laid Sits tokens trees) : ∀ tree ∈ trees, ∃ span piece,
    tree.span? = some span ∧ Over piece span ∧ piece.Sublist tokens := by
  intro tree htree
  obtain ⟨front, piece, back, rfl, hpiece, -⟩ := h.exists_piece htree tree.mem_nodes_self
  obtain ⟨span, hspan, hover⟩ := hpiece.span
  exact ⟨span, piece, hspan, hover, (List.sublist_append_left piece back).trans
    (List.sublist_append_right front _)⟩

/-- **Trees that stand one behind the other have spans that do.** -/
theorem apart (h : Laid Sits tokens trees) (horder : InOrder tokens) :
    trees.Pairwise Tree.Before := by
  induction h with
  | nil => exact .nil
  | @cons gap piece rest tree trees hpiece _ hrest _ ih =>
      have hboth : InOrder (piece ++ rest) := horder.sublist (List.sublist_append_right gap _)
      refine List.pairwise_cons.mpr ⟨?_, ih (hboth.sublist (List.sublist_append_right piece rest))⟩
      intro other hother span hspan span' hspan'
      obtain ⟨first, hfirst, hover⟩ := hpiece.span
      obtain ⟨second, inner, hsecond, hover', hinner⟩ := hrest.exists_span other hother
      cases hspan.symm.trans hfirst
      cases hspan'.symm.trans hsecond
      exact hover.apart hover' (hboth.sublist (hinner.append_left piece))

end Laid

/-- What the span of a node says about the text that it was read from. -/
structure Tree.Spans (text : String) (node : Tree) (span : Span) : Prop where
  /-- A span is not empty, and it goes from the start of some token to the end of some token. -/
  forward : span.start.offset < span.stop.offset
  starts : ∃ token ∈ tokenize text, token.kind ≠ .eof ∧ token.span.start = span.start
  stops : ∃ token ∈ tokenize text, token.kind ≠ .eof ∧ token.span.stop = span.stop
  /-- Children lie within it, one behind the other. -/
  within : ∀ child ∈ node.children, ∃ inner, child.span? = some inner ∧
    span.start.offset ≤ inner.start.offset ∧ inner.stop.offset ≤ span.stop.offset
  apart : node.children.Pairwise Tree.Before
  /-- Under the span of a number stand its digits. -/
  number : ∀ value place, node = .integer value place →
    (∀ c ∈ slice text.toList span.start.offset span.stop.offset, c.isDigit = true) ∧
    value = (Nat.ofDigitChars 10 (slice text.toList span.start.offset span.stop.offset) 0 : Nat)
  /-- Under the span of a name by itself stands that name. -/
  name : ∀ name place, node = .nullary name place →
    String.ofList (slice text.toList span.start.offset span.stop.offset) = name

section Lines

variable {text : String}

/-- The text under the span of a token is its lexeme. -/
theorem slice_token {token : Token} (htoken : token ∈ tokenize text) (hkind : token.kind ≠ .eof) :
    slice text.toList token.span.start.offset token.span.stop.offset = token.lexeme.toList ∧
      Shaped token.kind token.lexeme.toList := by
  obtain ⟨before, chars, after, htext, hbegin, hend, hlexeme, hshaped⟩ := exists_cut htoken hkind
  rw [hlexeme, String.toList_ofList]
  refine ⟨?_, hshaped⟩
  rw [hend, hbegin, ← Location.after_append, Location.offset_after_origin,
    Location.offset_after_origin, htext, slice_append]

/-- **Spans nest.**  Every node of what is read from a text has a span.  It is not empty, and it goes
from the start of some token to the end of some token; the spans of the children lie within it, apart
from each other and in the order of the text; and under the span of a number stand its digits, and
under that of a name by itself the name. -/
theorem Line.parse_spans_nest {line : Line} (h : Line.parse text = .ok line) :
    ∀ node ∈ line.toTree.nodes, ∃ span, node.span? = some span ∧ node.Spans text span := by
  intro node hnode
  obtain ⟨body, rest, htokens, hbody, hlaid⟩ :=
    laid_of_ofTokens (closed_tokenize text) (mapError_eq_ok h)
  have horder : InOrder body := inOrder_tokenize htokens hbody
  have hmem : ∀ token ∈ body, token ∈ tokenize text ∧ token.kind ≠ .eof := fun token htoken =>
    ⟨htokens ▸ List.mem_append_left rest htoken, hbody token htoken⟩
  obtain ⟨front, piece, back, rfl, hpiece, hinside⟩ :=
    hlaid.exists_piece (List.mem_singleton_self _) hnode
  have hsublist : piece.Sublist (front ++ (piece ++ back)) :=
    (List.sublist_append_left piece back).trans (List.sublist_append_right front _)
  have hpieces : InOrder piece := horder.sublist hsublist
  obtain ⟨span, hspan, hover⟩ := hpiece.span
  refine ⟨span, hspan, hover.forward hpieces, ?_, ?_, ?_, hinside.apart hpieces, ?_, ?_⟩
  · obtain ⟨⟨first, hfirst, hstart⟩, -⟩ := hover
    obtain ⟨htoken, hkind⟩ := hmem first (hsublist.subset (List.mem_of_head? hfirst))
    exact ⟨first, htoken, hkind, hstart⟩
  · obtain ⟨-, last, hlast, hstop⟩ := hover
    obtain ⟨htoken, hkind⟩ := hmem last (hsublist.subset (List.mem_of_getLast? hlast))
    exact ⟨last, htoken, hkind, hstop⟩
  · intro child hchild
    obtain ⟨inner, part, hinner, hpart, hsub⟩ := hinside.exists_span child hchild
    exact ⟨inner, hinner, hover.within hpieces hpart hsub.subset⟩
  · rintro value place rfl
    obtain ⟨token, rfl, hnumber, rfl⟩ := hpiece.oneToken
    obtain ⟨htoken, hkind⟩ := hmem token (hsublist.subset List.mem_cons_self)
    obtain ⟨hslice, hshaped⟩ := slice_token htoken hkind
    rw [hover.eq_span, hslice]
    rw [hnumber] at hshaped
    refine ⟨?_, rfl⟩
    cases hshaped with
    | number _ hdigits => exact hdigits
    | sign hspelt => cases hspelt
  · rintro name place rfl
    obtain ⟨token, rfl, -, rfl⟩ := hpiece.oneToken
    obtain ⟨htoken, hkind⟩ := hmem token (hsublist.subset List.mem_cons_self)
    rw [hover.eq_span, (slice_token htoken hkind).1, String.ofList_toList]

/-- The parentheses around the left operand belong to the command, and to neither operand. -/
theorem Line.parse_spans_nest_parenthesised :
    ∃ line, Line.parse "(1+x)D(2)" = .ok line ∧
      (line.toTree.nodes.map fun node =>
          node.span?.map fun span => (span.start.offset, span.stop.offset)) =
        [some (0, 9), some (1, 4), some (1, 2), some (3, 4), some (7, 8)] ∧
      ∀ node ∈ line.toTree.nodes, ∃ span, node.span? = some span ∧ node.Spans "(1+x)D(2)" span := by
  have hread : ((Line.parse "(1+x)D(2)").toOption.map fun line => line.toTree.nodes.map fun node =>
      node.span?.map fun span => (span.start.offset, span.stop.offset)) =
        some [some (0, 9), some (1, 4), some (1, 2), some (3, 4), some (7, 8)] := by
    decide +kernel
  cases hparse : Line.parse "(1+x)D(2)" with
  | error failure =>
      rw [hparse] at hread
      cases hread
  | ok line =>
      rw [hparse] at hread
      exact ⟨line, rfl, Option.some.inj hread, Line.parse_spans_nest hparse⟩

end Lines

end DiceLang
