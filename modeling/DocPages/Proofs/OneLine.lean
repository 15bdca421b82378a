/-
Source put on one line. The text of a node has its tokens one after the other,
with a space wherever the source has trivia between two of them; the header of a
type has them a space apart. Neither loses a token, nor makes one of two or two
of one: what is read of the line again is what the node covers
(`oneLine_reread`).
-/
import DocPages.Proofs.Snippets

namespace DocPages.Source

/-- Reading the text gives the tokens `ts`, trivia apart. -/
def RereadAs (text : String) (ts : List Token) : Prop :=
  (TokenStream.ofSource text).tokens.map Token.bare = ts.map Token.bare

namespace Tree

/-- The tokens of a type in front of its first brace or semicolon. -/
def typeHeaderTokens (tree : Tree) (n : Node) : List Token :=
  (tree.tokensOf n).takeWhile fun t => t.kind ≠ .lbrace && t.kind ≠ .semi

end Tree

/-! ## Tokens a space apart -/

/-- A space behind each of some words is a space between them and one at the end. -/
theorem join_spaced (w : String) (ws : List String) :
    String.join ((w :: ws).map (· ++ " ")) = " ".intercalate (w :: ws) ++ " " := by
  induction ws generalizing w with
  | nil => simp [String.join]
  | cons v ws ih =>
    have hjoin : String.join ((w :: v :: ws).map (· ++ " ")) = w ++ " " ++ String.join ((v :: ws).map (· ++ " ")) := by
      apply String.toList_injective
      simp [String.toList_join]
    rw [hjoin, ih, String.intercalate_cons_cons, String.append_assoc, String.append_assoc, String.append_assoc]

theorem map_spaced (ts : List Token) : ts.map (·.text ++ " ") = (ts.map (·.text)).map (· ++ " ") := by
  rw [List.map_map]
  rfl

/-- Known tokens with a space behind each are laid out in their order. -/
theorem laid_spaced {ts : List Token} (h : ∀ t ∈ ts, ∃ x, t.ReadsBefore x) :
    Laid (String.join (ts.map (·.text ++ " "))) ts := by
  cases ts with
  | nil => exact .of_spells .nil
  | cons t rest =>
    rw [map_spaced, List.map_cons, join_spaced]
    exact (Laid.of_spells (spells_words h)).space

/-! ## Texts of nodes -/

section

variable {source : String} {n : Node}

/-- The one-line text of a node without unknown tokens is read as the tokens that the node covers. -/
theorem text_reread (hn : n.start ≤ n.stop) (hk : ∀ t ∈ (Tree.ofSource source).tokensOf n, t.kind ≠ .unknown) :
    RereadAs ((Tree.ofSource source).text n) ((Tree.ofSource source).tokensOf n) := by
  have hspells := isLegible_of_known hk n.start n.stop (Nat.le_refl n.start) hn (Nat.le_refl n.stop)
  exact (bares_ofSource _).trans hspells.bares_end

/-- The header of a type, if it has no unknown tokens, is read as the tokens in front of the first brace or
semicolon. -/
theorem typeSnippet_reread (hn : n.start ≤ n.stop)
    (hk : ∀ t ∈ (Tree.ofSource source).typeHeaderTokens n, t.kind ≠ .unknown) :
    RereadAs ((Tree.ofSource source).typeSnippet n) ((Tree.ofSource source).typeHeaderTokens n) := by
  obtain ⟨rest, hrest⟩ : (Tree.ofSource source).typeHeaderTokens n <+: (Tree.ofSource source).tokensOf n :=
    List.takeWhile_prefix _
  have hsplit : (TokenStream.ofSource source).tokens = (TokenStream.ofSource source).tokens.take n.start ++
      (Tree.ofSource source).typeHeaderTokens n ++ (rest ++ (TokenStream.ofSource source).tokens.drop n.stop) := by
    rw [List.append_assoc, ← List.append_assoc _ rest, hrest, ← List.append_assoc]
    exact between_split _ hn
  exact (laid_spaced (readFrom_of_tokens hsplit hk).exists_readsBefore).bares_trimmed

end

/-- **One-line text preserves tokens.** The text of every node without unknown tokens is read as the tokens that the
node covers; and so is the snippet of a type, as far as its first brace or semicolon. -/
theorem oneLine_reread (source : String) : ∀ p ∈ (Tree.ofSource source).places,
    ((∀ t ∈ (Tree.ofSource source).tokensOf p.node, t.kind ≠ .unknown) →
      RereadAs ((Tree.ofSource source).text p.node) ((Tree.ofSource source).tokensOf p.node)) ∧
    (p.node.kind.isTypeDeclaration = true →
      (∀ t ∈ (Tree.ofSource source).typeHeaderTokens p.node, t.kind ≠ .unknown) →
      RereadAs ((Tree.ofSource source).snippet p.node) ((Tree.ofSource source).typeHeaderTokens p.node)) := by
  intro p hp
  have hframed : Framed _ p.node := ((Tree.ofTokens_framed _).placesFrom hp).here
  have hn : p.node.start ≤ p.node.stop := hframed.ordered
  refine ⟨text_reread hn, fun htype hk => ?_⟩
  have hsnippet : (Tree.ofSource source).snippet p.node = (Tree.ofSource source).typeSnippet p.node := by
    have hmember : (p.node.kind = .method || p.node.kind = .constructor) = false := by
      cases hkind : p.node.kind <;> rw [hkind] at htype <;> first | rfl | cases htype
    rw [Tree.snippet, hmember, if_neg Bool.false_ne_true, if_pos htype]
  rw [hsnippet]
  exact typeSnippet_reread hn hk

/-- Line breaks, comments and directives between the tokens, and literals that hold what would be tokens. -/
theorem oneLine_reread_sample : ∃ tree, tree = Tree.ofSource
      "[A(@\"a\"\"\x7b\")] class C<T>:B<T>\n// b\nwhere T:new()\x7b\n#if X\nint M(int a=1.5,\n char b='\\'')=>a; \x7d" ∧
    (tree.places.filter (·.node.kind.isTypeDeclaration)).map (fun p => (tree.text p.node, tree.snippet p.node)) =
      [("[A(@\"a\"\"\x7b\")] class C<T>:B<T> where T:new()\x7b int M(int a=1.5, char b='\\'')=>a; \x7d",
        "[ A ( @\"a\"\"\x7b\" ) ] class C < T > : B < T > where T : new ( )")] ∧
    (∀ p ∈ tree.places, ∀ t ∈ tree.tokensOf p.node, t.kind ≠ .unknown) ∧
    ∀ p ∈ tree.places, RereadAs (tree.text p.node) (tree.tokensOf p.node) ∧
      (p.node.kind.isTypeDeclaration = true → RereadAs (tree.snippet p.node) (tree.typeHeaderTokens p.node)) := by
  refine ⟨_, rfl, ?_, ?known, fun p hp => ⟨(oneLine_reread _ p hp).1 (?known p hp), fun htype =>
    (oneLine_reread _ p hp).2 htype fun t ht => ?known p hp t (List.takeWhile_subset _ ht)⟩⟩
  · decide +kernel
  · decide +kernel

end DocPages.Source
