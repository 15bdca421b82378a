/-
Proper nesting of braces, parentheses and brackets. A stack holds the marks
that are still to come, the innermost first (`nests`). Reading itself only
counts marks (`closeReach`); where they nest, its count ends at the mark that
closes the group (`closeReach_append`), and braces alone nest in whatever it
moves over (`Moves.nests`).
-/
import DocPages.Proofs.Moves

namespace DocPages.Source

/-! ## Marks -/

namespace TokenKind

/-- The mark that closes what a mark opens. -/
def closing? : TokenKind → Option TokenKind
  | .lbrace => some .rbrace
  | .lparen => some .rparen
  | .lbracket => some .rbracket
  | _ => none

def isClosing (k : TokenKind) : Bool :=
  k = .rbrace || k = .rparen || k = .rbracket

theorem isClosing_of_closing? {k close : TokenKind} (h : k.closing? = some close) :
    close.isClosing = true := by
  cases k <;> cases h <;> rfl

theorem closing?_eq_none {k : TokenKind} (h : k.isClosing = true) : k.closing? = none := by
  cases k <;> first | rfl | cases h

theorem eq_lbrace {k : TokenKind} (h : k.closing? = some .rbrace) : k = .lbrace := by
  cases k <;> first | rfl | cases h

end TokenKind

theorem Token.isClose_eq (t : Token) : t.isClose = t.kind.isClosing := rfl

theorem Token.isOpen_eq (t : Token) : t.isOpen = t.kind.closing?.isSome := by
  unfold Token.isOpen
  cases t.kind <;> rfl

/-- No mark both opens and closes. -/
theorem Token.isOpen_eq_false {t : Token} (h : t.isClose = true) : t.isOpen = false := by
  rw [Token.isOpen_eq, TokenKind.closing?_eq_none h]
  rfl

theorem Token.isClose_eq_false {t : Token} (h : t.isOpen = true) : t.isClose = false := by
  cases hc : t.isClose with
  | false => rfl
  | true => rw [isOpen_eq_false hc] at h; cases h

/-- The marks among the kinds nest; those in `pending` are to close what was opened before. -/
def nests : List TokenKind → List TokenKind → Bool
  | pending, [] => pending.isEmpty
  | pending, k :: rest =>
    match k.closing? with
    | some close => nests (close :: pending) rest
    | none => if k.isClosing then pending.head? = some k && nests pending.tail rest else nests pending rest

section

variable {k close : TokenKind} {pending others ks rest : List TokenKind}

theorem nests_nil : nests pending [] = pending.isEmpty := rfl

theorem nests_open (h : k.closing? = some close) :
    nests pending (k :: rest) = nests (close :: pending) rest := by
  show (match k.closing? with | some close => nests (close :: pending) rest | none => _) = _
  rw [h]

theorem nests_mark (h : k.closing? = none) : nests pending (k :: rest) =
    if k.isClosing then pending.head? = some k && nests pending.tail rest else nests pending rest := by
  show (match k.closing? with | some close => nests (close :: pending) rest | none => _) = _
  rw [h]

theorem nests_close (h : k.isClosing = true) : nests (k :: pending) (k :: rest) = nests pending rest := by
  rw [nests_mark (TokenKind.closing?_eq_none h), if_pos h]
  simp

theorem nests_other (hk : k.closing? = none) (h : k.isClosing = false) :
    nests pending (k :: rest) = nests pending rest := by
  rw [nests_mark hk, h]
  rfl

/-- What is next where marks nest: one that opens, the one that is due, or no mark at all. -/
theorem nests_cons (h : nests pending (k :: rest) = true) :
    (∃ close, k.closing? = some close ∧ nests (close :: pending) rest = true) ∨
    (k.isClosing = true ∧ ∃ others, pending = k :: others ∧ nests others rest = true) ∨
    (k.closing? = none ∧ k.isClosing = false ∧ nests pending rest = true) := by
  cases hk : k.closing? with
  | some close =>
    rw [nests_open hk] at h
    exact .inl ⟨close, rfl, h⟩
  | none =>
    rw [nests_mark hk] at h
    split at h
    · next hc =>
      simp only [Bool.and_eq_true, decide_eq_true_eq] at h
      obtain ⟨hh, ht⟩ := h
      cases pending with
      | nil => cases hh
      | cons x others =>
        cases hh
        exact .inr (.inl ⟨hc, others, rfl, ht⟩)
    · next hc => exact .inr (.inr ⟨rfl, by simpa using hc, h⟩)

theorem nests_append (hk : nests pending ks = true) (hr : nests others rest = true) :
    nests (pending ++ others) (ks ++ rest) = true := by
  induction ks generalizing pending with
  | nil =>
    obtain rfl : pending = [] := by simpa [nests_nil] using hk
    exact hr
  | cons k ks ih =>
    rcases nests_cons hk with ⟨close, hc, hs⟩ | ⟨hc, tail, rfl, hs⟩ | ⟨hc, hn, hs⟩
    · rw [List.cons_append, nests_open hc]
      exact ih hs
    · rw [List.cons_append, List.cons_append, nests_close hc]
      exact ih hs
    · rw [List.cons_append, nests_other hc hn]
      exact ih hs

/-- Up to the mark that is due, and after it. The induction is over more than one due mark. -/
theorem nests_split_append (h : nests (pending ++ close :: others) ks = true) :
    ∃ inner rest, ks = inner ++ close :: rest ∧ nests pending inner = true ∧ nests others rest = true := by
  induction ks generalizing pending with
  | nil => simp [nests_nil] at h
  | cons k ks ih =>
    rcases nests_cons h with ⟨c, hc, h⟩ | ⟨hc, tail, ht, h⟩ | ⟨hc, hn, h⟩
    · have h : nests (c :: pending ++ close :: others) ks = true := h
      obtain ⟨inner, rest, rfl, hi, hr⟩ := ih h
      exact ⟨k :: inner, rest, rfl, by rwa [nests_open hc], hr⟩
    · cases pending with
      | nil =>
        obtain ⟨rfl, rfl⟩ := List.cons.inj ht
        exact ⟨[], ks, rfl, rfl, h⟩
      | cons x pending =>
        obtain ⟨rfl, rfl⟩ := List.cons.inj ht
        obtain ⟨inner, rest, rfl, hi, hr⟩ := ih h
        exact ⟨x :: inner, rest, rfl, by rwa [nests_close hc], hr⟩
    · obtain ⟨inner, rest, rfl, hi, hr⟩ := ih h
      exact ⟨k :: inner, rest, rfl, by rwa [nests_other hc hn], hr⟩

theorem nests_split (h : nests (close :: others) ks = true) :
    ∃ inner rest, ks = inner ++ close :: rest ∧ nests [] inner = true ∧ nests others rest = true :=
  nests_split_append (show nests ([] ++ close :: others) ks = true from h)

end

/-! ## Groups -/

/-- Nested tokens are counted through: what is open before them is open after them. -/
theorem closeReach_append {pending : List TokenKind} {inner : List Token} (ts : List Token) {depth : Nat}
    (hd : 1 ≤ depth) (h : nests pending (inner.map (·.kind)) = true) :
    closeReach (depth + pending.length) (inner ++ ts) = inner.length + closeReach depth ts := by
  induction inner generalizing pending with
  | nil =>
    obtain rfl : pending = [] := by simpa [nests_nil] using h
    simp
  | cons t inner ih =>
    rw [List.cons_append, closeReach, Token.isOpen_eq, Token.isClose_eq, List.length_cons]
    rcases nests_cons h with ⟨close, hc, hs⟩ | ⟨hc, tail, rfl, hs⟩ | ⟨hc, hn, hs⟩
    · have := ih hs
      simp only [hc, Option.isSome_some, if_true]
      rw [List.length_cons, ← Nat.add_assoc] at this
      omega
    · have hk : t.kind.closing? = none := TokenKind.closing?_eq_none hc
      have hlt : ¬ depth + (t.kind :: tail).length ≤ 1 := by simp only [List.length_cons]; omega
      have := ih hs
      simp only [hk, hc, Option.isSome_none, Bool.false_eq_true, if_false, if_true, hlt]
      simp only [List.length_cons, ← Nat.add_assoc, Nat.add_sub_cancel]
      omega
    · have := ih hs
      simp only [hc, hn, Option.isSome_none, Bool.false_eq_true, if_false]
      omega

/-- The rest of a group whose inside nests, through the mark that closes it. -/
theorem closeReach_group {inner rest : List Token} {t : Token} (hi : nests [] (inner.map (·.kind)) = true)
    (ht : t.isClose = true) : closeReach 1 (inner ++ t :: rest) = inner.length + 1 := by
  have h := closeReach_append (t :: rest) (Nat.le_refl 1) hi
  rw [closeReach] at h
  simpa [Token.isOpen_eq_false ht, ht] using h

/-- Where marks nest, a mark that opens a group has its match, and the item that it begins ends there. -/
theorem itemReach_of_nests {pending : List TokenKind} {t : Token} {rest : List Token} (ho : t.isOpen = true)
    (h : nests pending ((t :: rest).map (·.kind)) = true) :
    ∃ inner close after, rest = inner ++ close :: after ∧ t.kind.closing? = some close.kind ∧
      nests [] (inner.map (·.kind)) = true ∧ nests pending (after.map (·.kind)) = true ∧
      itemReach t rest = inner.length + 1 := by
  rw [Token.isOpen_eq] at ho
  obtain ⟨close, hc⟩ := Option.isSome_iff_exists.1 ho
  rw [List.map_cons, nests_open hc] at h
  obtain ⟨inner, after, he, hi, ha⟩ := nests_split h
  obtain ⟨inner, tail, rfl, rfl, htail⟩ := List.map_eq_append_iff.1 he
  obtain ⟨t', after, rfl, rfl, rfl⟩ := List.map_eq_cons_iff.1 htail
  refine ⟨inner, t', after, rfl, hc, hi, ha, ?_⟩
  rw [itemReach, if_pos (by rw [Token.isOpen_eq]; exact ho)]
  exact closeReach_group hi (TokenKind.isClosing_of_closing? hc)

/-! ## Braces alone -/

/-- The braces among the tokens nest. -/
def bracesNest (ts : List Token) : Bool :=
  nests [] ((ts.map (·.kind)).filter (·.isBrace))

section

variable {ts us : List Token} {t u : Token}

theorem bracesNest_append (h : bracesNest ts = true) (h' : bracesNest us = true) :
    bracesNest (ts ++ us) = true := by
  unfold bracesNest at *
  rw [List.map_append, List.filter_append]
  exact nests_append h h'

theorem bracesNest_singleton (hl : t.kind ≠ .lbrace) (hr : t.kind ≠ .rbrace) : bracesNest [t] = true := by
  simp [bracesNest, TokenKind.isBrace, hl, hr, nests_nil]

theorem bracesNest_braces (h : bracesNest ts = true) (ht : t.kind = .lbrace) (hu : u.kind = .rbrace) :
    bracesNest (t :: ts ++ [u]) = true := by
  have hend : nests [.rbrace] [.rbrace] = true := rfl
  have : nests ([] ++ [.rbrace]) _ = true := nests_append h hend
  unfold bracesNest at *
  simp only [List.cons_append, List.map_cons, List.map_append, List.map_nil, ht, hu]
  rw [List.filter_cons_of_pos rfl, List.filter_append, nests_open rfl]
  exact this

/-- Where all marks nest, braces do: of the marks that are due only braces are. -/
theorem nests_filter_isBrace {pending ks : List TokenKind} (h : nests pending ks = true) :
    nests (pending.filter (·.isBrace)) (ks.filter (·.isBrace)) = true := by
  induction ks generalizing pending with
  | nil =>
    obtain rfl : pending = [] := by simpa [nests_nil] using h
    rfl
  | cons k ks ih =>
    rcases nests_cons h with ⟨close, hc, hs⟩ | ⟨hc, tail, rfl, hs⟩ | ⟨hc, hn, hs⟩
    · have := ih hs
      have hb : k.isBrace = close.isBrace := by cases k <;> cases hc <;> rfl
      rw [List.filter_cons] at this ⊢
      split
      · next hk =>
        rw [if_pos (hb ▸ hk)] at this
        rwa [nests_open hc]
      · next hk => rwa [if_neg (hb ▸ hk)] at this
    · have := ih hs
      rw [List.filter_cons, List.filter_cons]
      split
      · rwa [nests_close hc]
      · exact this
    · have hb : k.isBrace = false := by
        cases k <;> first | rfl | exact absurd hc (by decide) | exact absurd hn (by decide)
      rw [List.filter_cons_of_neg (by simp [hb])]
      exact ih hs

theorem bracesNest_of_nests (h : nests [] (ts.map (·.kind)) = true) : bracesNest ts = true :=
  nests_filter_isBrace h

end

/-! ## Moving where marks nest -/

/-- The marks among the tokens nest, with `depth` closing braces due before them. -/
def OpenAt (depth : Nat) (ts : List Token) : Prop :=
  ∃ pending, nests pending (ts.map (·.kind)) = true ∧ pending.count .rbrace = depth

section

variable {depth : Nat} {t : Token} {rest : List Token}

theorem OpenAt.lbrace (h : OpenAt depth (t :: rest)) (ht : t.kind = .lbrace) : OpenAt (depth + 1) rest := by
  obtain ⟨pending, h, rfl⟩ := h
  rw [List.map_cons, ht, nests_open rfl] at h
  exact ⟨_, h, List.count_cons_self⟩

theorem OpenAt.rbrace (h : OpenAt depth (t :: rest)) (ht : t.kind = .rbrace) :
    ∃ d, depth = d + 1 ∧ OpenAt d rest := by
  obtain ⟨pending, h, rfl⟩ := h
  rw [List.map_cons, ht] at h
  rcases nests_cons h with ⟨close, hc, -⟩ | ⟨-, others, rfl, h⟩ | ⟨-, hn, -⟩
  · cases hc
  · exact ⟨_, List.count_cons_self, _, h, rfl⟩
  · cases hn

/-- A single token that is no brace leaves the braces as they are. -/
theorem OpenAt.other (h : OpenAt depth (t :: rest)) (hl : t.kind ≠ .lbrace) (hr : t.kind ≠ .rbrace) :
    OpenAt depth rest := by
  obtain ⟨pending, h, rfl⟩ := h
  rcases nests_cons h with ⟨close, hc, hs⟩ | ⟨-, others, rfl, hs⟩ | ⟨-, -, hs⟩
  · refine ⟨_, hs, List.count_cons_of_ne fun he => hl ?_⟩
    exact TokenKind.eq_lbrace (he ▸ hc)
  · exact ⟨_, hs, (List.count_cons_of_ne hr).symm⟩
  · exact ⟨_, hs, rfl⟩

theorem OpenAt.nil (h : OpenAt depth []) : depth = 0 := by
  obtain ⟨pending, h, rfl⟩ := h
  obtain rfl : pending = [] := by simpa [nests_nil] using h
  rfl

/-- **Every move leaves braces alone**: they nest in what is moved over, and as many are open after it as
before. Of parentheses and brackets this is not so. -/
theorem Moves.nests {ts : List Token} {n : Nat} (hm : Moves ts n) (h : OpenAt depth ts) :
    bracesNest (ts.take n) = true ∧ OpenAt depth (ts.drop n) := by
  induction hm with
  | zero ts => exact ⟨rfl, h⟩
  | @one t rest n hl hr _ ih =>
    obtain ⟨hb, ho⟩ := ih (h.other hl hr)
    rw [Nat.add_comm, List.take_succ_cons, List.drop_succ_cons]
    exact ⟨bracesNest_append (bracesNest_singleton hl hr) hb, ho⟩
  | @group t rest n hopen _ ih =>
    obtain ⟨pending, h, rfl⟩ := h
    obtain ⟨inner, close, after, rfl, hc, hi, ha, hr⟩ := itemReach_of_nests hopen h
    have hdrop : (inner ++ close :: after).drop (inner.length + 1) = after := by simp
    rw [hr, hdrop] at ih
    obtain ⟨hb, ho⟩ := ih ⟨pending, ha, rfl⟩
    have hsplit : t :: (inner ++ close :: after) = (t :: inner ++ [close]) ++ after := by simp
    have hlen : (t :: inner ++ [close]).length = 1 + (inner.length + 1) := by simp; omega
    rw [hr, hsplit, ← hlen, List.take_length_add_append, List.drop_length_add_append]
    refine ⟨bracesNest_append (bracesNest_of_nests ?_) hb, ho⟩
    have hclose : Source.nests [close.kind] [close.kind] = true :=
      nests_close (TokenKind.isClosing_of_closing? hc)
    have : Source.nests ([] ++ [close.kind]) _ = true := nests_append hi hclose
    simp only [List.cons_append, List.map_cons, List.map_append, List.map_nil]
    rw [nests_open hc]
    exact this

end

end DocPages.Source
