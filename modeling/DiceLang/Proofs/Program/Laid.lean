import DiceLang.Proofs.Line
import DiceLang.Proofs.Program.Sound

/-!
# Lines over token lists

What was said of expressions goes on to blocks of definitions and to lines: `Line.laid_of_ofTokens`
says that whatever is read from a list of tokens is laid over a front of it.  So every node that is
read carries a span (`Line.parse_spanned`).
-/

namespace DiceLang

namespace Grammar

/-- The span of a whole list goes over all of it but the end token. -/
theorem over_tokensSpan? {body : List Token} {stop : Token} (hsome : body ≠ [])
    (hbody : ∀ token ∈ body, token.kind ≠ .eof) (hstop : stop.kind = .eof) :
    ∃ span, tokensSpan? (body ++ [stop]) = some span ∧ Over body span := by
  obtain ⟨first, others, rfl⟩ := List.exists_cons_of_ne_nil hsome
  have hfilter : ((first :: others) ++ [stop]).filter (fun token => token.kind != .eof) =
      first :: others := by
    rw [List.filter_append, List.filter_eq_self.mpr (by simpa using hbody)]
    simp [hstop]
  have hlast := List.getLast?_eq_some_getLast (List.cons_ne_nil first others)
  refine ⟨first.span.through ((first :: others).getLast (List.cons_ne_nil _ _)).span, ?_, ?_, ?_⟩
  · rw [List.cons_append] at hfilter
    simp only [tokensSpan?, List.cons_append, hfilter, hlast]
  · exact ⟨first, rfl, rfl⟩
  · exact ⟨_, hlast, rfl⟩

end Grammar

open Grammar

/-- **Whatever is read from a closed list stands over a front of it.** -/
theorem Line.laid_of_ofTokens {limit : Nat} {tokens : List Token} {line : Line}
    (hclosed : Closed tokens) (h : Line.ofTokens limit tokens = .ok line) :
    ∃ body rest, tokens = body ++ rest ∧ (∀ token ∈ body, token.kind ≠ .eof) ∧
      Laid Sits body [line.toTree] := by
  unfold Line.ofTokens at h
  split at h
  · next harrow =>
      obtain ⟨program, hprogram, rfl⟩ := map_eq_ok h
      obtain ⟨block, hblock, hwhole⟩ := bind_eq_ok hprogram
      cases hwhole
      obtain ⟨gap, hgap, hbreaks⟩ := skipSeparators_eq tokens
      obtain ⟨front, rest, hrest, hend, hread⟩ := definitions_read hblock
      have hbody : ∀ token ∈ gap ++ front, token.kind ≠ .eof := by
        refine List.forall_mem_append.mpr ⟨fun token htoken => ?_, hread.inner⟩
        simp [hbreaks token htoken]
      have htokens : tokens = (gap ++ front) ++ rest := by
        rw [List.append_assoc, ← hrest, ← hgap]
      obtain ⟨stop, rfl, hstop⟩ := Closed.eq_singleton (Closed.rest (htokens ▸ hclosed) hbody) hend
      have hsome : gap ++ front ≠ [] := by
        intro hnone
        rw [htokens, hnone] at harrow
        simp [hstop] at harrow
      obtain ⟨span, hspan, hover⟩ := over_tokensSpan? hsome hbody hstop
      refine ⟨gap ++ front, [stop], htokens, hbody, .single ⟨⟨span, ?_, hover⟩, trivial⟩ ?_⟩
      · rw [htokens]
        exact hspan
      · exact hread.laid.before gap
  · obtain ⟨tree, htree, rfl⟩ := map_eq_ok h
    obtain ⟨reading, hreading, rfl⟩ := Tree.ofTokens_eq_ok htree
    obtain ⟨taken, hoccupies, hread⟩ := expression_sites limit hreading
    exact ⟨taken, reading.rest, hoccupies.takes, hread.spells.kind_ne_eof,
      hread.wrapped.laid.mono fun _ _ hpiece => hpiece.toSits⟩

/-- Every node of a tree carries a span. -/
def Tree.Spanned (tree : Tree) : Prop :=
  ∀ node ∈ tree.nodes, node.span?.isSome = true

/-- All trees that are laid over tokens have spans. -/
theorem Laid.spanned {tokens : List Token} {trees : List Tree} {tree : Tree}
    (h : Laid Sits tokens trees) (htree : tree ∈ trees) : tree.Spanned := by
  intro node hnode
  obtain ⟨-, piece, -, -, hpiece, -⟩ := h.exists_piece htree hnode
  obtain ⟨span, hspan, -⟩ := hpiece.span
  simp [hspan]

/-- Every node of the expressions of a line carries a span. -/
def Line.Spanned : Line → Prop
  | .expression tree => tree.Spanned
  | .program block => ∀ definition ∈ block.definitions, definition.body.Spanned

/-- Whatever a text is read as carries spans. -/
theorem Line.parse_spanned {text : String} {line : Line} (h : Line.parse text = .ok line) :
    line.Spanned := by
  obtain ⟨body, rest, -, -, hlaid⟩ := laid_of_ofTokens (closed_tokenize text) (mapError_eq_ok h)
  have hwhole : line.toTree.Spanned := hlaid.spanned (List.mem_singleton_self _)
  cases line with
  | expression tree => exact hwhole
  | program block =>
      intro definition hmem node hnode
      have hchild : definition.toTree ∈ block.toTree.children := List.mem_map_of_mem hmem
      have hbody : definition.body ∈ definition.toTree.children := List.mem_singleton_self _
      exact hwhole node (Tree.mem_nodes_trans (Tree.mem_nodes_trans hnode
        (Tree.mem_nodes_of_mem_children hbody)) (Tree.mem_nodes_of_mem_children hchild))

end DiceLang
