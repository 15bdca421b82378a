/-
Where lists of type arguments end. Three functions look for the bracket that
closes such a list: one for types, which passes over groups (`angleReach`), one for
the interface in front of a name, which looks into them (`flatAngleReach`), and one for
values, which also has to tell a list from a comparison (`typeArgumentsReach`). What
they have in common is told by an induction over the types of a list (`IsVerdict`):
the first two pass over all types, the last one over those without tuples and colons.
-/
import DocPages.Proofs.Nesting

namespace DocPages.Source

/-! ## Type arguments -/

/-- A mark after a type: nullable, or the rank of an array. -/
inductive TypeMark where
  | nullable
  | rank (commas : Nat)

/-- What joins two names of a path. -/
inductive PathJoint where
  | dot
  | colons

mutual

/-- A type that may be an argument: a path or a tuple, with marks after it. -/
inductive ArgumentType where
  | path (names : ArgumentPath) (marks : List TypeMark)
  | tuple (first second : ArgumentType) (others : List ArgumentType) (marks : List TypeMark)

/-- Names with dots or two colons between them, each with type arguments of its own or none. -/
inductive ArgumentPath where
  | last (arguments : List ArgumentType)
  | more (arguments : List ArgumentType) (joint : PathJoint) (rest : ArgumentPath)

end

/-! ### Tokens

Only the kinds of tokens tell where a list ends. -/

def TypeMark.kinds : TypeMark → List TokenKind
  | .nullable => [.question]
  | .rank commas => .lbracket :: (.replicate commas .comma ++ [.rbracket])

def PathJoint.kinds : PathJoint → List TokenKind
  | .dot => [.dot]
  | .colons => [.colon, .colon]

mutual

def ArgumentType.kinds : ArgumentType → List TokenKind
  | .path names marks => names.kinds ++ marks.flatMap (·.kinds)
  | .tuple first second others marks =>
    .lparen :: (first.kinds ++ (.comma :: (second.kinds ++ laterKinds others)) ++ [.rparen]) ++
      marks.flatMap (·.kinds)

def ArgumentPath.kinds : ArgumentPath → List TokenKind
  | .last arguments => .ident :: listKinds arguments
  | .more arguments joint rest => .ident :: listKinds arguments ++ (joint.kinds ++ rest.kinds)

/-- A list in angle brackets, if there are any types to list. -/
def listKinds : List ArgumentType → List TokenKind
  | [] => []
  | t :: rest => .lt :: (t.kinds ++ laterKinds rest ++ [.gt])

/-- Types after the first, each after a comma. -/
def laterKinds : List ArgumentType → List TokenKind
  | [] => []
  | t :: rest => .comma :: (t.kinds ++ laterKinds rest)

end

/-! ### Plain types -/

def PathJoint.isPlain : PathJoint → Bool
  | .dot => true
  | .colons => false

mutual

/-- There are no tuples and no colons in the type. -/
def ArgumentType.isPlain : ArgumentType → Bool
  | .path names _ => names.isPlain
  | .tuple .. => false

def ArgumentPath.isPlain : ArgumentPath → Bool
  | .last arguments => allPlain arguments
  | .more arguments joint rest => allPlain arguments && (joint.isPlain && rest.isPlain)

def allPlain : List ArgumentType → Bool
  | [] => true
  | t :: rest => t.isPlain && allPlain rest

end

/-! ## Verdicts on kinds -/

/-- A relation between kinds of tokens and a verdict on them that follows how types are written, where the verdict
on plain types is `true` and that on others `false`. -/
structure IsVerdict (P : Bool → List TokenKind → Prop) : Prop where
  nil : P true []
  append : ∀ {a b ks ls}, P a ks → P b ls → P (a && b) (ks ++ ls)
  single : ∀ k ∈ [TokenKind.ident, .comma, .dot, .question], P true [k]
  rank : ∀ commas, P true (TypeMark.rank commas).kinds
  angles : ∀ {b ks}, P b ks → P b (.lt :: (ks ++ [.gt]))
  colons : P false [.colon, .colon]
  tuple : ∀ {b ks}, P b ks → P false (.lparen :: (ks ++ [.rparen]))

namespace IsVerdict

variable {P : Bool → List TokenKind → Prop} (h : IsVerdict P)

include h

theorem cons {k : TokenKind} (hk : k ∈ [TokenKind.ident, .comma, .dot, .question]) {b : Bool}
    {ks : List TokenKind} (hks : P b ks) : P b (k :: ks) :=
  h.append (h.single k hk) hks

theorem marks (ms : List TypeMark) : P true (ms.flatMap (·.kinds)) := by
  induction ms with
  | nil => exact h.nil
  | cons m ms ih =>
    cases m with
    | nullable => exact h.cons (by simp) ih
    | rank commas => exact h.append (h.rank commas) ih

theorem joint (j : PathJoint) : P (j.isPlain) j.kinds := by
  cases j with
  | dot => exact h.single .dot (by simp)
  | colons => exact h.colons

mutual

theorem type : ∀ t : ArgumentType, P (t.isPlain) t.kinds
  | .path names marks => by
    have hpath := h.append (path names) (h.marks marks)
    rw [Bool.and_true] at hpath
    rwa [ArgumentType.isPlain, ArgumentType.kinds]
  | .tuple first second others marks => by
    have hlater := h.cons (k := .comma) (by simp) (h.append (type second) (laterTypes others))
    have htuple := h.append (h.tuple (h.append (type first) hlater)) (h.marks marks)
    rw [Bool.and_true] at htuple
    rwa [ArgumentType.isPlain, ArgumentType.kinds]

theorem path : ∀ p : ArgumentPath, P (p.isPlain) p.kinds
  | .last arguments => by
    rw [ArgumentPath.isPlain, ArgumentPath.kinds]
    exact h.cons (by simp) (types arguments)
  | .more arguments joint rest => by
    rw [ArgumentPath.isPlain, ArgumentPath.kinds]
    exact h.append (h.cons (by simp) (types arguments)) (h.append (h.joint joint) (path rest))

theorem types : ∀ ts : List ArgumentType, P (allPlain ts) (listKinds ts)
  | [] => by
    rw [allPlain, listKinds]
    exact h.nil
  | t :: rest => by
    rw [allPlain, listKinds]
    exact h.angles (h.append (type t) (laterTypes rest))

theorem laterTypes : ∀ ts : List ArgumentType, P (allPlain ts) (laterKinds ts)
  | [] => by
    rw [allPlain, laterKinds]
    exact h.nil
  | t :: rest => by
    rw [allPlain, laterKinds]
    exact h.cons (by simp) (h.append (type t) (laterTypes rest))

end

/-- What is between the brackets of a list. -/
theorem inner (t : ArgumentType) (rest : List ArgumentType) :
    P (t.isPlain && allPlain rest) (t.kinds ++ laterKinds rest) :=
  h.append (h.type t) (h.laterTypes rest)

end IsVerdict

/-! ## Passing over kinds -/

/-- At any depth and in front of any tokens, `f` passes over tokens of these kinds. -/
def Passes (f : Nat → List Token → Option Nat) (ks : List TokenKind) : Prop :=
  ∀ depth ts rest, 1 ≤ depth → ts.map (·.kind) = ks → f depth (ts ++ rest) = (f depth rest).map (ts.length + ·)

/-- Among tokens of these kinds, `f` gives up. -/
def Fails (f : Nat → List Token → Option Nat) (ks : List TokenKind) : Prop :=
  ∀ depth ts rest, 1 ≤ depth → ts.map (·.kind) = ks → f depth (ts ++ rest) = none

namespace Passes

variable {f : Nat → List Token → Option Nat} {ks ls : List TokenKind} {k k' : TokenKind}

theorem nil : Passes f [] := by
  intro depth ts rest _ hts
  rw [List.map_eq_nil_iff.1 hts]
  simp

theorem append (h : Passes f ks) (h' : Passes f ls) : Passes f (ks ++ ls) := by
  intro depth ts rest hd hts
  obtain ⟨us, vs, rfl, hus, hvs⟩ := List.map_eq_append_iff.1 hts
  rw [List.append_assoc, h depth us _ hd hus, h' depth vs rest hd hvs, Option.map_map, List.length_append]
  exact congrArg (fun g => (f depth rest).map g) (funext fun n => by simp [Nat.add_assoc])

/-- One kind takes the depth up or down, or leaves it. -/
theorem single (h : ∀ depth t rest, t.kind = k → f depth (t :: rest) = (f depth rest).map (1 + ·)) :
    Passes f [k] := by
  intro depth ts rest _ hts
  obtain ⟨t, rfl, ht⟩ := List.map_eq_singleton_iff.1 hts
  exact h depth t rest ht

theorem replicate (h : Passes f [k]) (n : Nat) : Passes f (.replicate n k) := by
  induction n with
  | zero => exact nil
  | succ n ih => exact h.append ih

/-- What is between two marks is one level deeper. -/
theorem enclosed (h : Passes f ks)
    (hopen : ∀ depth t rest, t.kind = k → f depth (t :: rest) = (f (depth + 1) rest).map (1 + ·))
    (hclose : ∀ depth t rest, 1 ≤ depth → t.kind = k' →
      f (depth + 1) (t :: rest) = (f depth rest).map (1 + ·)) :
    Passes f (k :: (ks ++ [k'])) := by
  intro depth ts rest hd hts
  obtain ⟨t, us, rfl, ht, hus⟩ := List.map_eq_cons_iff.1 hts
  obtain ⟨vs, ws, rfl, hvs, hws⟩ := List.map_eq_append_iff.1 hus
  obtain ⟨u, rfl, hu⟩ := List.map_eq_singleton_iff.1 hws
  rw [List.cons_append, hopen depth t _ ht, List.append_assoc, h _ vs _ (Nat.succ_le_succ (Nat.zero_le depth)) hvs,
    List.singleton_append, hclose depth u rest hd hu, Option.map_map, Option.map_map]
  refine congrArg (fun g => (f depth rest).map g) (funext fun n => ?_)
  simp only [Function.comp, List.length_cons, List.length_append, List.length_nil]
  omega

end Passes

namespace Fails

variable {f : Nat → List Token → Option Nat} {ks ls : List TokenKind}

theorem append (h : Fails f ks) (ls : List TokenKind) : Fails f (ks ++ ls) := by
  intro depth ts rest hd hts
  obtain ⟨us, vs, rfl, hus, -⟩ := List.map_eq_append_iff.1 hts
  rw [List.append_assoc, h depth us _ hd hus]

theorem after (h : Passes f ks) (h' : Fails f ls) : Fails f (ks ++ ls) := by
  intro depth ts rest hd hts
  obtain ⟨us, vs, rfl, hus, hvs⟩ := List.map_eq_append_iff.1 hts
  rw [List.append_assoc, h depth us _ hd hus, h' depth vs rest hd hvs, Option.map_none]

end Fails

/-! ## The three matchers -/

/-- A function that goes on to the bracket that closes the innermost open ones. -/
structure IsAngleMatcher (f : Nat → List Token → Option Nat) : Prop where
  opening : ∀ depth t rest, t.kind = .lt → f depth (t :: rest) = (f (depth + 1) rest).map (1 + ·)
  closing : ∀ depth t rest, 1 ≤ depth → t.kind = .gt → f (depth + 1) (t :: rest) = (f depth rest).map (1 + ·)
  last : ∀ t rest, t.kind = .gt → f 1 (t :: rest) = some 1

/-- The end of a group, to be compared with the ends of lists. -/
def groupEnd (depth : Nat) (ts : List Token) : Option Nat :=
  some (closeReach depth ts)

def typesEnd (depth : Nat) (ts : List Token) : Option Nat :=
  some (angleReach depth ts)

def interfaceEnd (depth : Nat) (ts : List Token) : Option Nat :=
  some (flatAngleReach depth ts)

/-! ### Groups -/

section

variable {k k' : TokenKind} {ks : List TokenKind}

theorem groupEnd_single (hk : k.closing? = none) (hk' : k.isClosing = false) : Passes groupEnd [k] := by
  refine .single fun depth t rest ht => ?_
  have hopen : t.isOpen = false := by rw [Token.isOpen_eq, ht, hk]; rfl
  have hclose : t.isClose = false := by rw [Token.isClose_eq, ht, hk']
  simp [groupEnd, closeReach, hopen, hclose]

theorem groupEnd_group (hk : k.closing? = some k') (h : Passes groupEnd ks) :
    Passes groupEnd (k :: (ks ++ [k'])) := by
  refine h.enclosed (fun depth t rest ht => ?_) (fun depth t rest hd ht => ?_)
  · have hopen : t.isOpen = true := by rw [Token.isOpen_eq, ht, hk]; rfl
    simp [groupEnd, closeReach, hopen]
  · have hclose : t.isClose = true := by rw [Token.isClose_eq, ht, TokenKind.isClosing_of_closing? hk]
    have hdepth : ¬ depth + 1 ≤ 1 := by omega
    simp [groupEnd, closeReach, Token.isOpen_eq_false hclose, hclose, hdepth]

/-- Groups are closed as they are opened in all types. -/
theorem isVerdict_groupEnd : IsVerdict fun _ ks => Passes groupEnd ks where
  nil := .nil
  append := .append
  single k hk := by
    simp only [List.mem_cons, List.not_mem_nil, or_false] at hk
    rcases hk with rfl | rfl | rfl | rfl <;> exact groupEnd_single rfl rfl
  rank n := groupEnd_group rfl ((groupEnd_single rfl rfl).replicate n)
  angles h := (groupEnd_single rfl rfl).append (h.append (groupEnd_single rfl rfl))
  colons := (groupEnd_single (k := .colon) rfl rfl).append (groupEnd_single rfl rfl)
  tuple := groupEnd_group rfl

/-- A group is one item. -/
theorem itemReach_of_passes (hk : k.closing? = some k') (h : Passes groupEnd ks) {t : Token} {ts rest : List Token}
    (ht : t.kind = k) (hts : ts.map (·.kind) = ks ++ [k']) : itemReach t (ts ++ rest) = ts.length := by
  obtain ⟨us, vs, rfl, hus, hvs⟩ := List.map_eq_append_iff.1 hts
  obtain ⟨u, rfl, hu⟩ := List.map_eq_singleton_iff.1 hvs
  have hopen : t.isOpen = true := by rw [Token.isOpen_eq, ht, hk]; rfl
  have hclose : u.isClose = true := by rw [Token.isClose_eq, hu, TokenKind.isClosing_of_closing? hk]
  have hend : groupEnd 1 (us ++ u :: rest) = some (us.length + 1) := by
    rw [h 1 us _ (Nat.le_refl 1) hus]
    simp [groupEnd, closeReach, Token.isOpen_eq_false hclose, hclose]
  rw [itemReach, if_pos hopen, List.append_assoc, List.singleton_append, List.length_append]
  exact Option.some.inj hend

end

/-! ### Lists -/

section

variable {k k' : TokenKind} {ks : List TokenKind}

theorem isAngleMatcher_typesEnd : IsAngleMatcher typesEnd where
  opening depth t rest ht := by simp [typesEnd, angleReach, ht]
  closing depth t rest hd ht := by
    have hdepth : ¬ depth + 1 ≤ 1 := by omega
    simp [typesEnd, angleReach, ht, hdepth]
  last t rest ht := by simp [typesEnd, angleReach, ht]

theorem isAngleMatcher_interfaceEnd : IsAngleMatcher interfaceEnd where
  opening depth t rest ht := by simp [interfaceEnd, flatAngleReach, ht]
  closing depth t rest hd ht := by
    have hdepth : ¬ depth + 1 ≤ 1 := by omega
    simp [interfaceEnd, flatAngleReach, ht, hdepth]
  last t rest ht := by simp [interfaceEnd, flatAngleReach, ht]

theorem isAngleMatcher_typeArgumentsReach : IsAngleMatcher typeArgumentsReach where
  opening depth t rest ht := by simp [typeArgumentsReach, ht]
  closing depth t rest hd ht := by
    have hdepth : ¬ depth + 1 ≤ 1 := by omega
    simp [typeArgumentsReach, ht, hdepth]
  last t rest ht := by simp [typeArgumentsReach, ht]

theorem IsAngleMatcher.angles {f : Nat → List Token → Option Nat} (hf : IsAngleMatcher f) (h : Passes f ks) :
    Passes f (.lt :: (ks ++ [.gt])) :=
  h.enclosed hf.opening hf.closing

/-- The end of a list whose inside is passed over. -/
theorem IsAngleMatcher.end_eq {f : Nat → List Token → Option Nat} (hf : IsAngleMatcher f) (h : Passes f ks)
    {ts : List Token} (hts : ts.map (·.kind) = ks ++ [.gt]) (rest : List Token) :
    f 1 (ts ++ rest) = some ts.length := by
  obtain ⟨us, vs, rfl, hus, hvs⟩ := List.map_eq_append_iff.1 hts
  obtain ⟨u, rfl, hu⟩ := List.map_eq_singleton_iff.1 hvs
  rw [List.append_assoc, h 1 us _ (Nat.le_refl 1) hus, List.singleton_append, hf.last u rest hu, List.length_append]
  rfl

theorem typesEnd_group (hk : k = .lparen ∨ k = .lbracket) (hk' : k.closing? = some k') (h : Passes groupEnd ks) :
    Passes typesEnd (k :: (ks ++ [k'])) := by
  intro depth ts rest _ hts
  obtain ⟨t, us, rfl, ht, hus⟩ := List.map_eq_cons_iff.1 hts
  have hitem : itemReach t (us ++ rest) = us.length := itemReach_of_passes hk' h ht hus
  rw [List.cons_append, typesEnd, angleReach]
  rcases hk with rfl | rfl <;> simp [ht, hitem, typesEnd, Nat.add_comm]

/-- The matcher for types passes over all of them. -/
theorem isVerdict_typesEnd : IsVerdict fun _ ks => Passes groupEnd ks ∧ Passes typesEnd ks where
  nil := ⟨.nil, .nil⟩
  append h h' := ⟨h.1.append h'.1, h.2.append h'.2⟩
  single k hk := by
    refine ⟨isVerdict_groupEnd.single k hk, .single fun depth t rest ht => ?_⟩
    simp only [List.mem_cons, List.not_mem_nil, or_false] at hk
    rcases hk with rfl | rfl | rfl | rfl <;> simp [typesEnd, angleReach, ht]
  rank n := by
    refine ⟨isVerdict_groupEnd.rank n, typesEnd_group (.inr rfl) rfl ?_⟩
    exact (groupEnd_single rfl rfl).replicate n
  angles h := ⟨isVerdict_groupEnd.angles (b := true) h.1, isAngleMatcher_typesEnd.angles h.2⟩
  colons := by
    have hcolon : Passes typesEnd [.colon] := .single fun depth t rest ht => by simp [typesEnd, angleReach, ht]
    exact ⟨isVerdict_groupEnd.colons, hcolon.append hcolon⟩
  tuple h := ⟨isVerdict_groupEnd.tuple (b := true) h.1, typesEnd_group (.inl rfl) rfl h.1⟩

/-- The matcher for interfaces passes over every mark that types are written with, angle brackets apart. -/
theorem interfaceEnd_single (hk : k ∉ [TokenKind.lt, .gt, .lbrace, .rbrace, .semi]) : Passes interfaceEnd [k] := by
  refine .single fun depth t rest ht => ?_
  subst ht
  rw [interfaceEnd, flatAngleReach]
  split <;> simp_all [interfaceEnd]

theorem isVerdict_interfaceEnd : IsVerdict fun _ ks => Passes interfaceEnd ks where
  nil := .nil
  append := .append
  single k hk := interfaceEnd_single (by revert hk; cases k <;> decide)
  rank n := (interfaceEnd_single (by decide)).append
    (((interfaceEnd_single (by decide)).replicate n).append (interfaceEnd_single (by decide)))
  angles := isAngleMatcher_interfaceEnd.angles
  colons := (interfaceEnd_single (k := .colon) (by decide)).append (interfaceEnd_single (by decide))
  tuple h := (interfaceEnd_single (by decide)).append (h.append (interfaceEnd_single (by decide)))

theorem typeArgumentsReach_single (hk : k ∈ [TokenKind.ident, .comma, .dot, .question, .lbracket, .rbracket]) :
    Passes typeArgumentsReach [k] := by
  refine .single fun depth t rest ht => ?_
  subst ht
  have hpart : t.isTypeArgumentPart = true := by
    revert hk
    unfold Token.isTypeArgumentPart
    cases t.kind <;> decide
  have hangle : t.kind ≠ .lt ∧ t.kind ≠ .gt := by
    revert hk
    cases t.kind <;> decide
  rw [typeArgumentsReach, if_neg hangle.1, if_neg hangle.2, if_pos hpart]

/-- A tuple or a colon is taken to tell that the bracket was a comparison. -/
theorem typeArgumentsReach_fails (hk : k ∈ [TokenKind.lparen, .colon]) (ks : List TokenKind) :
    Fails typeArgumentsReach (k :: ks) := by
  intro depth ts rest _ hts
  obtain ⟨t, us, rfl, ht, -⟩ := List.map_eq_cons_iff.1 hts
  rw [List.cons_append, typeArgumentsReach]
  simp only [List.mem_cons, List.not_mem_nil, or_false] at hk
  rcases hk with rfl | rfl <;> simp [ht, Token.isTypeArgumentPart]

/-- The matcher for values passes over plain types and gives up on others. -/
theorem isVerdict_typeArgumentsReach : IsVerdict fun b ks =>
    if b then Passes typeArgumentsReach ks else Fails typeArgumentsReach ks where
  nil := .nil
  append {a b ks ls} h h' := by
    cases a with
    | false => exact Fails.append h ls
    | true =>
      cases b with
      | false => exact Fails.after h h'
      | true => exact Passes.append h h'
  single k hk := typeArgumentsReach_single (by revert hk; cases k <;> decide)
  rank n := (typeArgumentsReach_single (by decide)).append
    (((typeArgumentsReach_single (by decide)).replicate n).append (typeArgumentsReach_single (by decide)))
  angles {b ks} h := by
    cases b with
    | true => exact isAngleMatcher_typeArgumentsReach.angles h
    | false =>
      intro depth ts rest hd hts
      obtain ⟨t, us, rfl, ht, hus⟩ := List.map_eq_cons_iff.1 hts
      rw [List.cons_append, isAngleMatcher_typeArgumentsReach.opening depth t _ ht,
        Fails.append h _ _ us rest (Nat.le_succ_of_le hd) hus, Option.map_none]
  colons := typeArgumentsReach_fails (by decide) _
  tuple _ := typeArgumentsReach_fails (by decide) _

end

end DocPages.Source
