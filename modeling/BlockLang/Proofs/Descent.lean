import BlockLang.Proofs.Automaton
import BlockLang.Proofs.Grammar

/-!
# The parser follows the automaton

The parser goes down from an expression to its parts, with its cursor among all tokens.
The automaton reads the meaningful tokens only and keeps in its state what the parser has
in its calls. Here each part of the parser is shown to take the automaton along: if the
automaton is where the part begins, then it is where the part ends, at the same
meaningful token, and if the part complains, then the automaton has stopped there with
the same complaint. What the automaton finally comes to is fixed throughout, so every
statement is about one `result`.
-/

namespace BlockLang

theorem significant_of_trivia {t : Token} (h : t.isTrivia = true) (ts : List Token) :
    significant (t :: ts) = significant ts :=
  List.filter_cons_of_neg (by simp [h])

theorem significant_of_not_trivia {t : Token} (h : t.isTrivia = false) (ts : List Token) :
    significant (t :: ts) = t :: significant ts :=
  List.filter_cons_of_pos (by simp [h])

/-- Passing over trivia leads to the end or to the next meaningful token. -/
theorem dropWhile_trivia (ts : List Token) :
    (significant ts = [] ∧ ts.dropWhile (·.isTrivia) = []) ∨
      ∃ t rest, t.isTrivia = false ∧ ts.dropWhile (·.isTrivia) = t :: rest ∧
        significant ts = t :: significant rest ∧ rest.length < ts.length := by
  induction ts with
  | nil => exact .inl ⟨rfl, rfl⟩
  | cons t ts ih =>
      by_cases ht : t.isTrivia = true
      · rw [significant_of_trivia ht, List.dropWhile_cons_of_pos ht]
        obtain h | ⟨u, rest, hu, hdrop, hmeaning, hlength⟩ := ih
        · exact .inl h
        · exact .inr ⟨u, rest, hu, hdrop, hmeaning, Nat.lt_succ_of_lt hlength⟩
      · rw [Bool.not_eq_true] at ht
        refine .inr ⟨t, ts, ht, List.dropWhile_cons_of_neg (by simp [ht]), ?_, Nat.lt_succ_self _⟩
        exact significant_of_not_trivia ht ts

namespace Parser

open Automaton (run follow run_eq_follow expect expectName begin reduce settle step closeList
  BlockRole BindingForm ListRole Context Move)

variable {α β : Type} {result : Except Complaint Source × List Token} {ts : List Token}
  {n : Nat}

theorem bind_of_ok {p : Parser α} {a : α} {rest : List Token} (h : p ts = (.ok a, rest))
    (f : α → Parser β) : (p >>= f) ts = f a rest := by
  simp only [bind, h]

theorem bind_of_error {p : Parser α} {c : Complaint} {rest : List Token}
    (h : p ts = (.error c, rest)) (f : α → Parser β) : (p >>= f) ts = (.error c, rest) := by
  simp only [bind, h]

/-! ## Parts that take the automaton along -/

/-- A part of the parser takes at least `n` tokens and ends as `post` says, or it
complains and the automaton has come to the same complaint at the same place. -/
def Tracks (n : Nat) (p : Parser α) (result : Except Complaint Source × List Token)
    (ts : List Token) (post : α → List Token → Prop) : Prop :=
  match p ts with
  | (.ok a, rest) => rest.length + n ≤ ts.length ∧ post a rest
  | (.error c, rest) => result = (.error c, significant rest)

theorem tracks_pure {post : α → List Token → Prop} {a : α} (h : post a ts) :
    Tracks 0 (pure a) result ts post :=
  ⟨Nat.le_refl _, h⟩

theorem tracks_refuse {post : α → List Token → Prop} {c : Complaint}
    (h : result = (.error c, significant ts)) :
    Tracks n (refuse c) result ts post :=
  h

theorem Tracks.bind
    {p : Parser α} {f : α → Parser β} {mid : α → List Token → Prop}
    {post : β → List Token → Prop} (hp : Tracks n p result ts mid)
    (hf : ∀ a rest, rest.length + n ≤ ts.length → mid a rest → Tracks 0 (f a) result rest post) :
    Tracks n (p >>= f) result ts post := by
  unfold Tracks at hp ⊢
  rcases hfirst : p ts with ⟨c | a, rest⟩
  · rw [hfirst] at hp
    rw [bind_of_error hfirst]
    exact hp
  · rw [hfirst] at hp
    rw [bind_of_ok hfirst]
    obtain ⟨hlength, hmid⟩ := hp
    have hsecond := hf a rest hlength hmid
    unfold Tracks at hsecond
    rcases hend : f a rest with ⟨c | b, last⟩
    · rw [hend] at hsecond
      exact hsecond
    · rw [hend] at hsecond
      exact ⟨by omega, hsecond.2⟩

theorem Tracks.mono {p : Parser α} {post post' : α → List Token → Prop} {m : Nat}
    (hp : Tracks n p result ts post) (hm : m ≤ n) (h : ∀ a rest, post a rest → post' a rest) :
    Tracks m p result ts post' := by
  unfold Tracks at hp ⊢
  rcases hfirst : p ts with ⟨c | a, rest⟩
  · rw [hfirst] at hp
    exact hp
  · rw [hfirst] at hp
    exact ⟨Nat.le_trans (Nat.add_le_add_left hm _) hp.1, h a rest hp.2⟩

theorem Tracks.loose {p : Parser α} {post : α → List Token → Prop}
    (hp : Tracks n p result ts post) : Tracks 0 p result ts post :=
  hp.mono (Nat.zero_le n) fun _ _ => id

theorem Tracks.imp {p : Parser α} {post post' : α → List Token → Prop}
    (hp : Tracks n p result ts post) (h : ∀ a rest, post a rest → post' a rest) :
    Tracks n p result ts post' :=
  hp.mono (Nat.le_refl n) h

/-! ## The cursor -/

theorem tracks_of_peeked {p q : Parser α} {post : α → List Token → Prop} {rest : List Token}
    (hpeek : p ts = q rest) (hlength : rest.length ≤ ts.length) (hq : Tracks n q result rest post) :
    Tracks n p result ts post := by
  unfold Tracks at hq ⊢
  rw [hpeek]
  rcases hend : q rest with ⟨c | a, last⟩
  · rw [hend] at hq
    exact hq
  · rw [hend] at hq
    exact ⟨Nat.le_trans hq.1 hlength, hq.2⟩

theorem tracks_peek {f : Option Token → Parser α} {post : α → List Token → Prop}
    (hnone : significant ts = [] → Tracks n (f none) result [] post)
    (hsome : ∀ t rest, t.isTrivia = false → significant ts = t :: significant rest →
      rest.length < ts.length → Tracks n (f (some t)) result (t :: rest) post) :
    Tracks n (peek >>= f) result ts post := by
  have hpeek : (peek >>= f) ts =
      f (ts.dropWhile (·.isTrivia)).head? (ts.dropWhile (·.isTrivia)) := rfl
  obtain ⟨hmeaning, hdrop⟩ | ⟨t, rest, ht, hdrop, hmeaning, hlength⟩ := dropWhile_trivia ts
  · rw [hdrop] at hpeek
    exact tracks_of_peeked hpeek (Nat.zero_le _) (hnone hmeaning)
  · rw [hdrop] at hpeek
    exact tracks_of_peeked hpeek hlength (hsome t rest ht hmeaning hlength)

theorem tracks_peekIs {kind : Kind} {f : Bool → Parser α} {post : α → List Token → Prop}
    (hyes : ∀ t rest, t.kind = kind → t.isTrivia = false → significant ts = t :: significant rest →
      rest.length < ts.length → Tracks n (f true) result (t :: rest) post)
    (hno : ∀ rest, (significant ts).head?.any (·.kind == kind) = false →
      significant rest = significant ts → rest.length ≤ ts.length →
      Tracks n (f false) result rest post) :
    Tracks n (peekIs kind >>= f) result ts post := by
  have hlooks : (peekIs kind >>= f) = peek >>= fun look => f (look.any (·.kind == kind)) := rfl
  rw [hlooks]
  refine tracks_peek (fun hmeaning => ?_) fun t rest ht hmeaning hlength => ?_
  · exact hno [] (by rw [hmeaning]; rfl) (by rw [hmeaning]; rfl) (Nat.zero_le _)
  · by_cases hkind : t.kind = kind
    · have hany : (some t).any (·.kind == kind) = true := by simp [hkind]
      rw [hany]
      exact hyes t rest hkind ht hmeaning hlength
    · have hany : (some t).any (·.kind == kind) = false := by simp [hkind]
      rw [hany]
      refine hno (t :: rest) ?_ ?_ hlength
      · rw [hmeaning]
        exact hany
      · rw [hmeaning, significant_of_not_trivia ht]

theorem tracks_advance {t : Token} {p : Parser α} {post : α → List Token → Prop}
    (hp : Tracks 0 p result ts post) :
    Tracks 1 (advance >>= fun _ => p) result (t :: ts) post := by
  have hsecond : Tracks 1 advance result (t :: ts) fun _ rest => rest = ts :=
    ⟨Nat.le_refl _, rfl⟩
  refine hsecond.bind fun _ rest _ hrest => ?_
  rw [hrest]
  exact hp

/-- Passing a token goes well where the token has a wanted kind, and complains with the
automaton otherwise. -/
theorem tracks_accept {wanted : List Kind} {post : Token → List Token → Prop}
    (hended : significant ts = [] → result = (.error (.ended wanted), []))
    (hother : ∀ t us, significant ts = t :: us → wanted.contains t.kind = false →
      result = (.error (if t.kind.isError then .malformed t else .unexpected wanted t), t :: us))
    (hwanted : ∀ t rest, wanted.contains t.kind = true → significant ts = t :: significant rest →
      rest.length < ts.length → post t rest) :
    Tracks 1 (accept wanted) result ts post := by
  refine tracks_peek (fun hmeaning => tracks_refuse (hended hmeaning))
    fun t rest ht hmeaning hlength => ?_
  dsimp only
  by_cases hkind : wanted.contains t.kind = true
  · rw [if_pos hkind]
    exact tracks_advance (tracks_pure (hwanted t rest hkind hmeaning hlength))
  · rw [if_neg hkind]
    rw [Bool.not_eq_true] at hkind
    refine tracks_refuse ?_
    rw [significant_of_not_trivia ht]
    exact hother t _ hmeaning hkind

/-- Where the automaton expects one kind, so does the parser. -/
theorem tracks_expect {kind : Kind} {s : Automaton.State}
    (h : result = follow (expect kind (significant ts).head? s) (significant ts)) :
    Tracks 1 (accept [kind]) result ts fun _ rest => result = run s (significant rest) := by
  refine tracks_accept (fun hmeaning => ?_) (fun t us hmeaning hkind => ?_)
    fun t rest hkind hmeaning _ => ?_
  · rw [h, hmeaning]
    rfl
  · have hkind : t.kind ≠ kind := by simpa using hkind
    rw [h, hmeaning, List.head?_cons, expect, if_neg (by simpa using hkind)]
    rfl
  · have hkind : t.kind = kind := by simpa using hkind
    rw [h, hmeaning, List.head?_cons, expect, if_pos (by simpa using hkind)]
    rfl

/-- An expected token that comes next is passed by the automaton. -/
theorem follow_expect_of_head {kind : Kind} {t : Token} {rest : List Token}
    (ht : t.isTrivia = false) (hkind : t.kind = kind) (s : Automaton.State) :
    follow (expect kind (significant (t :: rest)).head? s) (significant (t :: rest)) =
      run s (significant rest) := by
  rw [significant_of_not_trivia ht, List.head?_cons, expect, if_pos (by simpa using hkind)]
  rfl

/-- Where a meaningful token of a wanted kind comes next, it is passed. -/
theorem tracks_accept_of_head {wanted : List Kind} {t : Token} {us : List Token}
    (hmeaning : significant ts = t :: us) (hkind : wanted.contains t.kind = true) :
    Tracks 1 (accept wanted) result ts fun u rest => u = t ∧ significant rest = us := by
  refine tracks_accept (fun hnone => ?_) (fun u vs hother hunwanted => ?_)
    fun u rest _ hpassed _ => ?_
  · rw [hnone] at hmeaning
    cases hmeaning
  · rw [hmeaning, List.cons.injEq] at hother
    rw [← hother.1, hkind] at hunwanted
    cases hunwanted
  · rw [hmeaning, List.cons.injEq] at hpassed
    exact ⟨hpassed.1.symm, hpassed.2.symm⟩

theorem tracks_identifier {s : Text → Automaton.State}
    (h : result = follow (expectName (significant ts).head? s) (significant ts)) :
    Tracks 1 identifier result ts fun x rest =>
      result = run (s x) (significant rest) ∧ (significant ts).tail = significant rest := by
  have hword : Tracks 1 (accept [.identifier]) result ts fun t rest =>
      t.kind = .identifier ∧ significant ts = t :: significant rest := by
    refine tracks_accept (fun hmeaning => ?_) (fun t us hmeaning hkind => ?_)
      fun t rest hkind hmeaning _ => ?_
    · rw [h, hmeaning]
      rfl
    · have hkind : t.kind ≠ .identifier := by simpa using hkind
      rw [h, hmeaning, List.head?_cons, expectName, if_neg (by simpa using hkind)]
      rfl
    · exact ⟨by simpa using hkind, hmeaning⟩
  refine hword.bind fun t rest _ hpassed => ?_
  obtain ⟨hkind, hmeaning⟩ := hpassed
  rw [hmeaning, List.head?_cons, expectName, if_pos (by simpa using hkind)] at h
  by_cases hreserved : isReserved t.literal = true
  · rw [if_pos hreserved] at h ⊢
    exact tracks_refuse h
  · rw [if_neg hreserved] at h ⊢
    exact tracks_pure ⟨h, by rw [hmeaning]; rfl⟩

/-! ## Series

The statements of a block, the arguments of a call and the parameters of a list are read
alike. -/

/-- What the automaton does about items of one sort. -/
structure Series (α : Type) where
  separator : Kind
  close : Kind
  awaiting : List α → Automaton.State
  closed : List α → Automaton.State

/-- What the automaton does after an item. -/
def Series.move (s : Series α) (done : List α) (look : Option Token) : Move :=
  if look.any (·.kind == s.separator) then .shift (s.awaiting done)
  else expect s.close look (s.closed done)

/-- What the automaton does in front of the first item, if there is one. -/
def Series.first (s : Series α) (look : Option Token) : Move :=
  if look.any (·.kind == s.close) then .shift (s.closed []) else step (s.awaiting []) look

theorem Series.run_awaiting {s : Series α}
    (h : result = follow (s.first (significant ts).head?) (significant ts))
    (hlook : (significant ts).head?.any (·.kind == s.close) = false) :
    result = run (s.awaiting []) (significant ts) := by
  rw [Series.first, if_neg (by simp [hlook])] at h
  rw [h, run_eq_follow]

theorem Series.run_closed {s : Series α} {t : Token} {us : List Token}
    (h : result = follow (s.first (significant ts).head?) (significant ts))
    (hmeaning : significant ts = t :: us) (hkind : t.kind = s.close) :
    result = run (s.closed []) us := by
  rw [hmeaning, List.head?_cons, Series.first, if_pos (by simpa using hkind)] at h
  exact h

/-- An item of the series is read from fewer than `bound` tokens. -/
def Series.Reads (s : Series α) (item : Parser α) (bound : Nat)
    (result : Except Complaint Source × List Token) : Prop :=
  ∀ done ts, ts.length < bound → result = run (s.awaiting done) (significant ts) →
    Tracks 1 item result ts fun a rest =>
      result = follow (s.move (done ++ [a]) (significant rest).head?) (significant rest)

theorem Series.Reads.tracks_separated {s : Series α} {item : Parser α} {bound : Nat}
    (hitem : s.Reads item bound result) :
    ∀ (m : Nat) (done : List α) (ts : List Token), ts.length < m → ts.length < bound →
      result = run (s.awaiting done) (significant ts) →
      Tracks 1 (separated s.separator item m) result ts fun as rest =>
        result = follow (expect s.close (significant rest).head? (s.closed (done ++ as)))
          (significant rest)
  | 0, _, _, hm, _, _ => absurd hm (Nat.not_lt_zero _)
  | m + 1, done, ts, hm, hbound, h => by
      refine (hitem done ts hbound h).bind fun a rest hlength hafter => ?_
      refine tracks_peekIs (fun t rest' hkind _ hmeaning hshort => ?_)
        fun rest' hlook hmeaning _ => ?_
      · -- a separator, and more items
        rw [if_pos rfl]
        have hmove : s.move (done ++ [a]) (some t) = .shift (s.awaiting (done ++ [a])) :=
          if_pos (by simpa using hkind)
        rw [hmeaning, List.head?_cons, hmove] at hafter
        have hmore := hitem.tracks_separated m (done ++ [a]) rest' (by omega) (by omega) hafter
        refine (tracks_advance (hmore.bind fun as last _ hclose => ?_).loose).loose
        exact tracks_pure (by rwa [List.append_assoc] at hclose)
      · -- the last item
        rw [if_neg Bool.false_ne_true]
        rw [Series.move, if_neg (by simp [hlook]), ← hmeaning] at hafter
        exact tracks_pure hafter

theorem Series.Reads.tracks_listed {s : Series α} {item : Parser α} {bound : Nat}
    (hitem : s.Reads item bound result) (hseparator : s.separator = .comma)
    (hclose : s.close = .closeParen) (hbound : ts.length < bound)
    (h : result = follow (s.first (significant ts).head?) (significant ts)) :
    Tracks 0 (listed item bound) result ts fun as rest =>
      result = follow (expect .closeParen (significant rest).head? (s.closed as))
        (significant rest) := by
  refine tracks_peekIs (fun t rest hkind ht hmeaning _ => ?_) fun rest hlook hmeaning hlength => ?_
  · rw [if_pos rfl]
    refine tracks_pure ?_
    rw [follow_expect_of_head ht hkind]
    exact Series.run_closed h hmeaning (hkind.trans hclose.symm)
  · rw [if_neg Bool.false_ne_true, ← hseparator, ← hclose]
    rw [← hclose] at hlook
    have hawaiting := Series.run_awaiting h hlook
    rw [← hmeaning] at hawaiting
    exact (hitem.tracks_separated bound [] rest (by omega) (by omega) hawaiting).loose

/-- The statements of a block. -/
def statements (role : BlockRole) (k : List Context) : Series Source where
  separator := .semicolon
  close := .closeBrace
  awaiting done := ⟨.expression, .statement role done.reverse :: k⟩
  closed es := ⟨.afterExpression (role.close es), k⟩

/-- The arguments of a call. -/
def arguments (operator : Source) (k : List Context) : Series Source where
  separator := .comma
  close := .closeParen
  awaiting done := ⟨.expression, .argument operator done.reverse :: k⟩
  closed es := ⟨.afterExpression (.apply () operator es), k⟩

/-- The names of a parameter list. -/
def parameters (role : ListRole) (k : List Context) : Series Text where
  separator := .comma
  close := .closeParen
  awaiting done := ⟨.parameter role done.reverse, k⟩
  closed xs := closeList role xs k

theorem reads_parameters (role : ListRole) (k : List Context) (bound : Nat) :
    (parameters role k).Reads identifier bound result := by
  intro done ts _ h
  have hname : result = follow (expectName (significant ts).head? fun x =>
      ⟨.afterParameter role (x :: done.reverse), k⟩) (significant ts) := by
    rw [h, run_eq_follow]
    rfl
  refine (tracks_identifier hname).imp fun x rest hnext => ?_
  have hmove : (parameters role k).move (done ++ [x]) (significant rest).head? =
      step ⟨.afterParameter role (x :: done.reverse), k⟩ (significant rest).head? := by
    simp only [Series.move, parameters, step, List.reverse_append, List.reverse_cons,
      List.reverse_nil, List.nil_append, List.singleton_append, List.reverse_reverse]
  rw [hmove, ← run_eq_follow]
  exact hnext.1

/-! ## Forms -/

/-- An expression has been read for the innermost context, and no argument list
follows it. -/
def Returns (result : Except Complaint Source × List Token) (k : List Context) (e : Source)
    (rest : List Token) : Prop :=
  result = follow (reduce (significant rest).head? e k) (significant rest) ∧
    (significant rest).head?.any (·.kind == .openParen) = false

/-- A parser of expressions takes the automaton along when there are fewer than
`bound` tokens. -/
def Sound (part : Parser Source) (bound : Nat) : Prop :=
  ∀ (result : Except Complaint Source × List Token) (k : List Context) (ts : List Token),
    ts.length < bound → result = run ⟨.expression, k⟩ (significant ts) →
    Tracks 1 part result ts (Returns result k)

variable {part : Parser Source} {bound : Nat} {k : List Context}

theorem Sound.reads_statements (hpart : Sound part bound) (role : BlockRole)
    (k : List Context) : (statements role k).Reads part bound result := by
  intro done ts hbound h
  refine (hpart result _ ts hbound h).imp fun e rest hnext => ?_
  have hmove : (statements role k).move (done ++ [e]) (significant rest).head? =
      reduce (significant rest).head? e (.statement role done.reverse :: k) := by
    simp only [Series.move, statements, reduce, List.reverse_append, List.reverse_cons,
      List.reverse_nil, List.nil_append, List.singleton_append, List.reverse_reverse]
  rw [hmove]
  exact hnext.1

theorem Sound.reads_arguments (hpart : Sound part bound) (operator : Source)
    (k : List Context) : (arguments operator k).Reads part bound result := by
  intro done ts hbound h
  refine (hpart result _ ts hbound h).imp fun e rest hnext => ?_
  have hmove : (arguments operator k).move (done ++ [e]) (significant rest).head? =
      reduce (significant rest).head? e (.argument operator done.reverse :: k) := by
    simp only [Series.move, arguments, reduce, List.reverse_append, List.reverse_cons,
      List.reverse_nil, List.nil_append, List.singleton_append, List.reverse_reverse]
  rw [hmove]
  exact hnext.1

theorem tracks_parameterList (role : ListRole) (hbound : ts.length ≤ bound)
    (h : result =
      follow (expect .openParen (significant ts).head? ⟨.parameterOrClose role, k⟩)
        (significant ts)) :
    Tracks 1 (parameterList bound) result ts fun xs rest =>
      result = run (closeList role xs k) (significant rest) := by
  refine (tracks_expect h).bind fun _ rest hlength hopened => ?_
  rw [run_eq_follow] at hopened
  refine ((reads_parameters role k bound).tracks_listed rfl rfl (by omega) hopened).bind
    fun xs rest' _ hlisted => ?_
  exact ((tracks_expect hlisted).bind fun _ _ _ hclosed => tracks_pure hclosed).loose

theorem tracks_block (role : BlockRole) (hpart : Sound part bound) (hbound : ts.length ≤ bound)
    (h : result =
      follow (expect .openBrace (significant ts).head? ⟨.statementOrClose role, k⟩)
        (significant ts)) :
    Tracks 1 (block part bound) result ts fun es rest =>
      result = run ⟨.afterExpression (role.close es), k⟩ (significant rest) := by
  refine (tracks_expect h).bind fun _ rest hlength hopened => ?_
  rw [run_eq_follow] at hopened
  change result = follow ((statements role k).first _) _ at hopened
  refine tracks_peekIs (fun t rest' hkind _ hmeaning _ => ?_) fun rest' hlook hmeaning _ => ?_
  · rw [if_pos rfl]
    exact (tracks_advance (tracks_pure (Series.run_closed hopened hmeaning hkind))).loose
  · rw [if_neg Bool.false_ne_true]
    have hawaiting := Series.run_awaiting hopened hlook
    rw [← hmeaning] at hawaiting
    have hseries := (hpart.reads_statements role k).tracks_separated bound [] rest' (by omega)
      (by omega) hawaiting
    refine (hseries.bind fun es last _ hlast => ?_).loose
    exact ((tracks_expect hlast).bind fun _ _ _ hclosed => tracks_pure hclosed).loose

theorem tracks_lambda {t : Token} {us : List Token} (hpart : Sound part bound)
    (hbound : ts.length ≤ bound) (hmeaning : significant ts = t :: us)
    (hkind : [Kind.lambda, .lambdaSign].contains t.kind = true)
    (h : result = run ⟨.lambdaOpen, k⟩ us) :
    Tracks 1 (lambda part bound) result ts fun e rest =>
      result = run ⟨.afterExpression e, k⟩ (significant rest) := by
  refine (tracks_accept_of_head hmeaning hkind).bind fun _ rest hlength hpassed => ?_
  rw [run_eq_follow, ← hpassed.2] at h
  have hbound' : rest.length ≤ bound := by omega
  have hlist := tracks_parameterList .lambda hbound' h
  refine (hlist.bind fun xs rest' hlength' hclosed => ?_).loose
  rw [closeList, run_eq_follow] at hclosed
  have hbody := tracks_block (.lambda xs) hpart (by omega) hclosed
  exact (hbody.bind fun es _ _ hdone => tracks_pure hdone).loose

theorem tracks_clause (done : List (Source × Source)) (hpart : Sound part bound)
    (hbound : ts.length ≤ bound)
    (h : result =
      follow (expect .openParen (significant ts).head? ⟨.expression, .test done :: k⟩)
        (significant ts)) :
    Tracks 1 (clause part) result ts fun c rest =>
      result = run ⟨.afterClause (c :: done), k⟩ (significant rest) := by
  refine (tracks_expect h).bind fun _ rest hlength hopened => ?_
  refine ((hpart result _ rest (by omega) hopened).bind fun test rest₁ _ htest => ?_).loose
  refine ((tracks_expect htest.1).bind fun _ rest₂ _ harrow => ?_).loose
  refine ((hpart result _ rest₂ (by omega) harrow).bind fun value rest₃ _ hvalue => ?_).loose
  exact ((tracks_expect hvalue.1).bind fun _ _ _ hclosed => tracks_pure hclosed).loose

theorem tracks_clauses (hpart : Sound part bound) :
    ∀ (m : Nat) (done : List (Source × Source)) (ts : List Token), ts.length < m →
      ts.length ≤ bound →
      result = follow (expect .openParen (significant ts).head? ⟨.expression, .test done :: k⟩)
        (significant ts) →
      Tracks 1 (clauses part m) result ts fun cs rest =>
        Returns result k (.cond () (done.reverse ++ cs)) rest
  | 0, _, _, hm, _, _ => absurd hm (Nat.not_lt_zero _)
  | m + 1, done, ts, hm, hbound, h => by
      refine (tracks_clause done hpart hbound h).bind fun c rest hlength hafter => ?_
      rw [run_eq_follow] at hafter
      refine tracks_peekIs (fun t rest' hkind ht hmeaning hshort => ?_)
        fun rest' hlook hmeaning _ => ?_
      · -- another clause
        rw [if_pos rfl]
        have hopens : step ⟨.afterClause (c :: done), k⟩ (some t) =
            .shift ⟨.expression, .test (c :: done) :: k⟩ := by
          have hany : (some t).any (·.kind == .openParen) = true := by simpa using hkind
          simp only [step, hany, if_true]
        rw [hmeaning, List.head?_cons, hopens] at hafter
        have hmore := tracks_clauses hpart m (c :: done) (t :: rest')
          (by rw [List.length_cons]; omega) (by rw [List.length_cons]; omega)
          (by rw [follow_expect_of_head ht hkind]; exact hafter)
        refine (hmore.bind fun cs last _ hend => tracks_pure ?_).loose
        rwa [List.reverse_cons, List.append_assoc] at hend
      · -- the last clause
        rw [if_neg Bool.false_ne_true]
        have hends : step ⟨.afterClause (c :: done), k⟩ (significant rest).head? =
            reduce (significant rest).head? (.cond () (done.reverse ++ [c])) k := by
          simp only [step, hlook, Bool.false_eq_true, if_false, List.reverse_cons]
        rw [hends, ← hmeaning] at hafter
        exact tracks_pure ⟨hafter, by rw [hmeaning]; exact hlook⟩

theorem tracks_cond {t : Token} {us : List Token} (hpart : Sound part bound)
    (hbound : ts.length ≤ bound) (hmeaning : significant ts = t :: us) (hkind : t.kind = .cond)
    (h : result = run ⟨.clauseOpen, k⟩ us) :
    Tracks 1 (cond part bound) result ts (Returns result k) := by
  refine (tracks_accept_of_head hmeaning (by simp [hkind])).bind fun _ rest hlength hpassed => ?_
  rw [run_eq_follow, ← hpassed.2] at h
  have hclauses := tracks_clauses hpart bound [] rest (by omega) (by omega) h
  exact (hclauses.bind fun cs _ _ hend => tracks_pure hend).loose

/-- A name, an equals sign and a value. The automaton may know from the name alone, or
only from the equals sign, that a value is to follow. -/
theorem tracks_binding (form : BindingForm) (k : List Context) (s : Text → Automaton.State)
    (hpart : Sound part bound) (hbound : ts.length ≤ bound)
    (hname : result = follow (expectName (significant ts).head? s) (significant ts))
    (hequals : ∀ x, step (s x) (significant ts).tail.head? =
      expect .equals (significant ts).tail.head? ⟨.expression, .binding form x :: k⟩) :
    Tracks 1 (binding part) result ts fun b rest =>
      Returns result (.binding form b.1 :: k) b.2 rest := by
  refine (tracks_identifier hname).bind fun x rest hlength hnext => ?_
  obtain ⟨hrun, htail⟩ := hnext
  rw [run_eq_follow, ← htail, hequals x, htail] at hrun
  refine ((tracks_expect hrun).bind fun _ rest' _ hvalue => ?_).loose
  refine ((hpart result _ rest' (by omega) hvalue).bind fun e _ _ hend => ?_).loose
  exact tracks_pure hend

theorem tracks_assignment {t : Token} {us : List Token} (hpart : Sound part bound)
    (hbound : ts.length ≤ bound) (hmeaning : significant ts = t :: us)
    (hkind : t.kind = .identifier) (hlook : us.head?.any (·.kind == .equals) = true)
    (h : result = run ⟨.expression, k⟩ (significant ts)) :
    Tracks 1 (assignment part) result ts (Returns result k) := by
  have hname : result = follow (expectName (significant ts).head? fun x => ⟨.afterName x, k⟩)
      (significant ts) := by
    rw [h, run_eq_follow, hmeaning]
    simp only [step, List.head?_cons, begin, expectName, hkind, BEq.rfl, if_true]
  have hbinding := tracks_binding .assign k _ hpart hbound hname fun x => by
    simp only [step, expect, hmeaning, List.tail_cons, hlook, if_true]
  exact hbinding.bind fun b rest _ hend => tracks_pure hend

theorem tracks_definition {t : Token} {us : List Token} (hpart : Sound part bound)
    (hbound : ts.length ≤ bound) (hmeaning : significant ts = t :: us)
    (hkind : t.kind = .define) (h : result = run ⟨.bindingName .define, k⟩ us) :
    Tracks 1 (definition part) result ts (Returns result k) := by
  refine (tracks_accept_of_head hmeaning (by simp [hkind])).bind fun _ rest hlength hpassed => ?_
  rw [run_eq_follow, ← hpassed.2] at h
  have hbinding := tracks_binding .define k (fun x => ⟨.bindingEquals .define x, k⟩) hpart
    (by omega) h fun _ => rfl
  exact (hbinding.bind fun b rest _ hend => tracks_pure hend).loose

theorem tracks_letIn {t : Token} {us : List Token} (hpart : Sound part bound)
    (hbound : ts.length ≤ bound) (hmeaning : significant ts = t :: us)
    (hkind : t.kind = .letIn) (h : result = run ⟨.bindingName .letIn, k⟩ us) :
    Tracks 1 (letIn part bound) result ts fun e rest =>
      result = follow (settle (significant rest).head? e k) (significant rest) := by
  refine (tracks_accept_of_head hmeaning (by simp [hkind])).bind fun _ rest hlength hpassed => ?_
  rw [run_eq_follow, ← hpassed.2] at h
  have hbinding := tracks_binding .letIn k (fun x => ⟨.bindingEquals .letIn x, k⟩) hpart
    (by omega) h fun _ => rfl
  refine (hbinding.bind fun b rest₁ hlength₁ hvalue => ?_).loose
  obtain ⟨hvalue, hcall⟩ := hvalue
  rw [reduce] at hvalue
  refine tracks_peekIs (fun u rest₂ hu hutrivia hopens hlength₂ => ?_)
    fun rest₂ hlook hsame _ => ?_
  · -- the brace opens the body
    rw [if_pos rfl]
    rw [hopens, List.head?_cons, if_pos (by simpa using hu)] at hvalue
    have hbody := tracks_block (.letIn b.1 b.2) hpart (by rw [List.length_cons]; omega)
      (hvalue.trans (follow_expect_of_head hutrivia hu _).symm)
    refine (hbody.bind fun es last _ hdone => tracks_pure ?_).loose
    rwa [run_eq_follow] at hdone
  · -- the let is left open
    rw [if_neg Bool.false_ne_true]
    rw [if_neg (by simp [hlook]), ← hsame] at hvalue
    rw [← hsame] at hcall
    refine tracks_pure ?_
    rw [settle, if_neg (by simp [hcall])]
    exact hvalue

theorem tracks_integer {t : Token} {us : List Token} (hmeaning : significant ts = t :: us)
    (hkind : t.kind = .integer) (h : result = run ⟨.expression, k⟩ (significant ts)) :
    Tracks 1 integer result ts fun e rest =>
      result = run ⟨.afterExpression e, k⟩ (significant rest) := by
  refine (tracks_accept_of_head hmeaning (by simp [hkind])).bind fun u rest _ hpassed => ?_
  obtain ⟨rfl, rfl⟩ := hpassed
  rw [run_eq_follow, hmeaning] at h
  simp only [step, List.head?_cons, begin, hkind] at h
  rcases hread : Integer.read u.literal with (_ | _) | n
  · rw [hread] at h
    exact tracks_refuse h
  · rw [hread] at h
    exact tracks_refuse h
  · rw [hread] at h
    exact tracks_pure h

theorem peekAhead_of_head {t : Token} {rest : List Token} (ht : t.isTrivia = false)
    (f : Option Token → Parser α) :
    (peekAhead >>= f) (t :: rest) = f (significant rest).head? (t :: rest) := by
  have hdrop : (t :: rest).dropWhile (·.isTrivia) = t :: rest :=
    List.dropWhile_cons_of_neg (by simp [ht])
  refine bind_of_ok ?_ f
  rw [peekAhead, hdrop, significant, List.head?_filter]
  rfl

/-- Every form is read as the automaton reads it, up to where an argument list may
follow. -/
theorem tracks_form {t : Token} {rest : List Token} (hpart : Sound part bound)
    (hbound : rest.length < bound) (ht : t.isTrivia = false)
    (h : result = run ⟨.expression, k⟩ (significant (t :: rest))) :
    Tracks 1 (form part bound t) result (t :: rest) fun e last =>
      result = follow (settle (significant last).head? e k) (significant last) := by
  have hmeaning := significant_of_not_trivia ht rest
  have hbegin : result = follow (begin k (some t)) (t :: significant rest) := by
    rw [h, run_eq_follow, hmeaning]
    rfl
  have hreturned : ∀ e last, Returns result k e last →
      result = follow (settle (significant last).head? e k) (significant last) := by
    intro e last hend
    rw [settle, if_neg (by simp [hend.2])]
    exact hend.1
  have hdone : ∀ e last, result = run ⟨.afterExpression e, k⟩ (significant last) →
      result = follow (settle (significant last).head? e k) (significant last) := by
    intro e last hend
    rw [hend, run_eq_follow]
    rfl
  have hrefused : ∀ c, result = follow (.fail c false) (t :: significant rest) →
      result = (.error c, significant (t :: rest)) := by
    intro c hfail
    rw [hmeaning]
    exact hfail
  have hlength : (t :: rest).length ≤ bound := hbound
  cases hkind : t.kind
  all_goals simp only [begin, hkind] at hbegin
  all_goals simp only [form, hkind]
  case openParen =>
    have hopened := hbegin.trans (follow_expect_of_head ht hkind _).symm
    exact (tracks_parameterList .plain hlength hopened).bind fun xs last _ hend =>
      tracks_pure (hdone _ last hend)
  case openBrace =>
    have hopened := hbegin.trans (follow_expect_of_head ht hkind _).symm
    exact (tracks_block .plain hpart hlength hopened).bind fun es last _ hend =>
      tracks_pure (hdone _ last hend)
  case lambda =>
    exact (tracks_lambda hpart hlength hmeaning (by simp [hkind]) hbegin).imp hdone
  case lambdaSign =>
    exact (tracks_lambda hpart hlength hmeaning (by simp [hkind]) hbegin).imp hdone
  case cond => exact (tracks_cond hpart hlength hmeaning hkind hbegin).imp hreturned
  case define => exact (tracks_definition hpart hlength hmeaning hkind hbegin).imp hreturned
  case letIn => exact tracks_letIn hpart hlength hmeaning hkind hbegin
  case integer => exact (tracks_integer hmeaning hkind h).imp hdone
  case string =>
    exact tracks_advance (tracks_pure (hdone _ rest hbegin))
  case identifier =>
    refine tracks_of_peeked (peekAhead_of_head ht _) (Nat.le_refl _) ?_
    by_cases hlook : (significant rest).head?.any (·.kind == .equals) = true
    · rw [if_pos hlook]
      exact (tracks_assignment hpart hlength hmeaning hkind hlook h).imp hreturned
    · rw [if_neg hlook]
      have hname : result = follow
          (expectName (significant (t :: rest)).head? fun x => ⟨.afterName x, k⟩)
          (significant (t :: rest)) := by
        rw [hmeaning, List.head?_cons, expectName, hkind, if_pos BEq.rfl]
        exact hbegin
      refine (tracks_identifier hname).bind fun x last _ hnext => tracks_pure ?_
      obtain ⟨hrun, htail⟩ := hnext
      rw [hmeaning, List.tail_cons] at htail
      rw [htail] at hlook
      rw [run_eq_follow] at hrun
      simp only [step, hlook, Bool.false_eq_true, if_false] at hrun
      exact hrun
  case equals | arrow | closeBrace | closeParen | comma | semicolon =>
    exact tracks_refuse (hrefused _ hbegin)
  case illegal | longIdentifier | longInteger | loneSign | openString | longString =>
    exact tracks_refuse (hrefused _ hbegin)
  case whitespace | comment | other => exact tracks_refuse (hrefused _ hbegin)

/-! ## Expressions -/

theorem tracks_application {operator : Source} (hpart : Sound part bound)
    (hbound : ts.length ≤ bound)
    (h : result =
      follow (expect .openParen (significant ts).head? ⟨.argumentOrClose operator, k⟩)
        (significant ts)) :
    Tracks 1 (application part bound operator) result ts fun e rest =>
      result = run ⟨.afterExpression e, k⟩ (significant rest) := by
  refine (tracks_expect h).bind fun _ rest hlength hopened => ?_
  rw [run_eq_follow] at hopened
  refine ((hpart.reads_arguments operator k).tracks_listed rfl rfl (by omega) hopened).bind
    fun es rest' _ hlisted => ?_
  exact ((tracks_expect hlisted).bind fun _ _ _ hclosed => tracks_pure hclosed).loose

theorem Sound.anti {m : Nat} (hpart : Sound part bound) (hm : m ≤ bound) : Sound part m :=
  fun result k ts hlength h => hpart result k ts (Nat.lt_of_lt_of_le hlength hm) h

theorem tracks_calls (hpart : Sound part bound) :
    ∀ (m : Nat) (e : Source) (ts : List Token), m ≤ bound → ts.length < m →
      result = follow (settle (significant ts).head? e k) (significant ts) →
      Tracks 0 (calls part m e) result ts (Returns result k)
  | 0, _, _, _, hm, _ => absurd hm (Nat.not_lt_zero _)
  | m + 1, e, ts, hbound, hm, h => by
      refine tracks_peekIs (fun t rest hkind ht hmeaning hlength => ?_)
        fun rest hlook hmeaning _ => ?_
      · -- an argument list, and perhaps more of them
        rw [if_pos rfl]
        rw [hmeaning, List.head?_cons, settle, if_pos (by simpa using hkind)] at h
        have hcall := tracks_application (hpart.anti (Nat.le_of_succ_le hbound))
          (by rw [List.length_cons]; omega) (h.trans (follow_expect_of_head ht hkind _).symm)
        refine (hcall.bind fun e' rest' hlength' hdone => ?_).loose
        rw [List.length_cons] at hlength'
        rw [run_eq_follow] at hdone
        exact tracks_calls hpart m e' rest' (Nat.le_of_succ_le hbound) (by omega) hdone
      · -- no argument list
        rw [if_neg Bool.false_ne_true]
        rw [settle, if_neg (by simp [hlook])] at h
        exact tracks_pure ⟨by rw [hmeaning]; exact h, by rw [hmeaning]; exact hlook⟩

/-- A bound above the number of tokens is never reached, and the parser takes the
automaton along. -/
theorem sound_expressionWithin : ∀ bound, Sound (expressionWithin bound) bound
  | 0 => fun _ _ _ hlength _ => absurd hlength (Nat.not_lt_zero _)
  | bound + 1 => by
      intro result k ts hbound h
      have hpart := sound_expressionWithin bound
      refine tracks_peek (fun hmeaning => tracks_refuse ?_) fun t rest ht hmeaning hlength => ?_
      · rw [h, hmeaning]
        rfl
      · rw [hmeaning, ← significant_of_not_trivia ht] at h
        refine (tracks_form hpart (by omega) ht h).bind fun e last hlast hend => ?_
        rw [List.length_cons] at hlast
        exact tracks_calls hpart bound e last (Nat.le_refl _) (by omega) hend

/-- The parser reads one expression as the automaton does, which reads the meaningful
tokens only, and leaves off at the same meaningful token. -/
theorem expression_eq_run (ts : List Token) :
    run Automaton.start (significant ts) =
      ((expression ts).1, significant (expression ts).2) := by
  have h := sound_expressionWithin (ts.length + 1) _ [] ts (Nat.lt_succ_self _) rfl
  unfold Tracks at h
  change run Automaton.start (significant ts) = _
  unfold expression
  rcases hend : expressionWithin (ts.length + 1) ts with ⟨c | e, rest⟩
  · rw [hend] at h
    exact h
  · rw [hend] at h
    exact h.2.1

end Parser

end BlockLang
