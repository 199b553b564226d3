import RemoteConsole.Script.Structure

/-!
# The block grammar

What a well-formed script looks like, as a grammar over its tokens, and the proof that the stack of
open constructs accepts exactly the sentences of this grammar. A token moves the stack in one of
four ways (`Moves`); a run of moves that closes every open construct reads backwards as a
derivation (`Completes`). The hard case is the head of a loop: the `do` that ends it is the same
word that opens a plain block, so a head must not hold such a block itself.
-/

namespace RemoteConsole.Script

def keyword (letters : String) : Token := .word letters.toList

def structuralWords : List (List Char) :=
  ["function", "if", "for", "while", "repeat", "do", "end", "until"].map String.toList

def Token.Plain : Token → Prop
  | .word letters => letters ∉ structuralWords
  | .opening _ | .closing _ => False
  | .other => True

mutual

inductive Block : List Token → Prop
  | nil : Block []
  | cons {item block : List Token} : Item item → Block block → Block (item ++ block)

inductive Item : List Token → Prop
  | simple {item : List Token} : Simple item → Item item
  | block {body : List Token} :
    Block body → Item (keyword "do" :: body ++ [keyword "end"])

inductive Simple : List Token → Prop
  | plain {t : Token} : t.Plain → Simple [t]
  | bracket (b : Bracket) {body : List Token} :
    Block body → Simple (.opening b :: body ++ [.closing b])
  | function {body : List Token} :
    Block body → Simple (keyword "function" :: body ++ [keyword "end"])
  | conditional {body : List Token} :
    Block body → Simple (keyword "if" :: body ++ [keyword "end"])
  | repetition {body : List Token} :
    Block body → Simple (keyword "repeat" :: body ++ [keyword "until"])
  | loop {first : Token} {head body : List Token} :
    first = keyword "for" ∨ first = keyword "while" → Head head → Block body →
    Simple (first :: head ++ keyword "do" :: body ++ [keyword "end"])

/-- What stands between `for` or `while` and its `do`. -/
inductive Head : List Token → Prop
  | nil : Head []
  | cons {item head : List Token} : Simple item → Head head → Head (item ++ head)

end

/-! ## What a token does to the open constructs -/

inductive Opens : Token → Construct → Prop
  | bracket (b : Bracket) : Opens (.opening b) (.bracket b)
  | function : Opens (keyword "function") .function
  | conditional : Opens (keyword "if") .conditional
  | for : Opens (keyword "for") .loopHead
  | while : Opens (keyword "while") .loopHead
  | block : Opens (keyword "do") .block
  | repetition : Opens (keyword "repeat") .repetition

inductive Closes : Token → Construct → Prop
  | bracket (b : Bracket) : Closes (.closing b) (.bracket b)
  | function : Closes (keyword "end") .function
  | conditional : Closes (keyword "end") .conditional
  | block : Closes (keyword "end") .block
  | repetition : Closes (keyword "until") .repetition

inductive Moves : Token → List Construct → List Construct → Prop
  | plain {t : Token} {stack : List Construct} : t.Plain → Moves t stack stack
  | opens {t : Token} {what : Construct} {stack : List Construct} :
    Opens t what → (what = .block → stack.head? ≠ some .loopHead) → Moves t stack (what :: stack)
  | turns {stack : List Construct} : Moves (keyword "do") (.loopHead :: stack) (.block :: stack)
  | closes {t : Token} {what : Construct} {stack : List Construct} :
    Closes t what → Moves t (what :: stack) stack

theorem stepWord_do_moves {line : Nat} {stack stack' : Stack}
    (h : stepWord stack line "do".toList = .ok stack') :
    Moves (keyword "do") (stack.map Prod.fst) (stack'.map Prod.fst) := by
  cases stack with
  | nil =>
    cases h
    exact .opens .block (by simp)
  | cons top rest =>
    obtain ⟨what, opened⟩ := top
    by_cases hwhat : what = .loopHead
    · subst hwhat
      cases h
      exact .turns
    · have hopens : Moves (keyword "do") (what :: rest.map Prod.fst)
          (.block :: what :: rest.map Prod.fst) :=
        .opens .block fun _ => by simpa using hwhat
      cases what <;> first | exact absurd rfl hwhat | (cases h; exact hopens)

theorem stepWord_moves {word : List Char} {line : Nat} {stack stack' : Stack}
    (h : stepWord stack line word = .ok stack') :
    Moves (.word word) (stack.map Prod.fst) (stack'.map Prod.fst) := by
  unfold stepWord at h
  by_cases hfunction : word = "function".toList
  · rw [if_pos hfunction] at h
    cases h
    subst hfunction
    exact .opens .function (by simp)
  rw [if_neg hfunction] at h
  by_cases hif : word = "if".toList
  · rw [if_pos hif] at h
    cases h
    subst hif
    exact .opens .conditional (by simp)
  rw [if_neg hif] at h
  by_cases hloop : word = "for".toList ∨ word = "while".toList
  · rw [if_pos hloop] at h
    cases h
    rcases hloop with rfl | rfl
    · exact .opens .for (by simp)
    · exact .opens .while (by simp)
  rw [if_neg hloop] at h
  by_cases hrepeat : word = "repeat".toList
  · rw [if_pos hrepeat] at h
    cases h
    subst hrepeat
    exact .opens .repetition (by simp)
  rw [if_neg hrepeat] at h
  by_cases hdo : word = "do".toList
  · rw [if_pos hdo] at h
    subst hdo
    exact stepWord_do_moves h
  rw [if_neg hdo] at h
  by_cases hend : word = "end".toList
  · rw [if_pos hend] at h
    subst hend
    split at h <;> cases h
    · exact .closes .function
    · exact .closes .conditional
    · exact .closes .block
  rw [if_neg hend] at h
  by_cases huntil : word = "until".toList
  · rw [if_pos huntil] at h
    subst huntil
    split at h <;> cases h
    exact .closes .repetition
  rw [if_neg huntil] at h
  cases h
  refine .plain ?_
  simp only [Token.Plain, structuralWords, List.map_cons, List.map_nil, List.mem_cons,
    List.not_mem_nil, hfunction, hif, not_or.mp hloop, hrepeat, hdo, hend, huntil,
    or_self, not_false_eq_true]

theorem step_moves {t : Token} {line : Nat} {stack stack' : Stack}
    (h : step stack (t, line) = .ok stack') :
    Moves t (stack.map Prod.fst) (stack'.map Prod.fst) := by
  cases t with
  | word word => exact stepWord_moves h
  | opening b =>
    cases h
    exact .opens (.bracket b) (by simp)
  | closing b =>
    cases stack with
    | nil => simp [step] at h
    | cons top rest =>
      obtain ⟨what, opened⟩ := top
      simp only [step] at h
      split at h
      · next hwhat =>
        cases h
        subst hwhat
        exact .closes (.bracket b)
      · cases h
  | other =>
    cases h
    exact .plain trivial

theorem step_of_moves {t : Token} {opened opened' : List Construct} (h : Moves t opened opened')
    (line : Nat) {stack : Stack} (hs : stack.map Prod.fst = opened) :
    ∃ stack', step stack (t, line) = .ok stack' ∧ stack'.map Prod.fst = opened' := by
  cases h with
  | plain hp =>
    refine ⟨stack, ?_, hs⟩
    cases t with
    | word word =>
      simp only [Token.Plain, structuralWords, List.map_cons, List.map_nil, List.mem_cons,
        List.not_mem_nil, or_false, not_or] at hp
      obtain ⟨hfunction, hif, hfor, hwhile, hrepeat, hdo, hend, huntil⟩ := hp
      simp only [step, stepWord, hfunction, hif, hfor, hwhile, hrepeat, hdo, hend, huntil, or_self,
        if_false]
    | opening b => exact hp.elim
    | closing b => exact hp.elim
    | other => rfl
  | @opens _ what _ ho hd =>
    refine ⟨(what, line) :: stack, ?_, by rw [List.map_cons, hs]⟩
    cases ho with
    | block =>
      cases stack with
      | nil => rfl
      | cons top rest =>
        obtain ⟨inner, first⟩ := top
        subst hs
        have hinner : inner ≠ .loopHead := by simpa using hd rfl
        cases inner <;> first | rfl | exact absurd rfl hinner
    | _ => rfl
  | turns =>
    obtain ⟨⟨_, first⟩, rest, rfl, rfl, rfl⟩ := List.map_eq_cons_iff.mp hs
    exact ⟨(.block, first) :: rest, rfl, rfl⟩
  | closes hc =>
    obtain ⟨⟨_, first⟩, rest, rfl, rfl, rfl⟩ := List.map_eq_cons_iff.mp hs
    refine ⟨rest, ?_, rfl⟩
    cases hc with
    | bracket b => simp [step]
    | _ => rfl

/-- The tokens, one after the other, move the first constructs to the second. -/
inductive Run : List Token → List Construct → List Construct → Prop
  | nil {stack : List Construct} : Run [] stack stack
  | cons {t : Token} {ts : List Token} {stack next last : List Construct} :
    Moves t stack next → Run ts next last → Run (t :: ts) stack last

theorem foldlM_step_run {found : List (Token × Nat)} {stack stack' : Stack}
    (h : found.foldlM step stack = .ok stack') :
    Run (found.map Prod.fst) (stack.map Prod.fst) (stack'.map Prod.fst) := by
  induction found generalizing stack with
  | nil =>
    cases h
    exact .nil
  | cons token found ih =>
    rw [List.foldlM_cons] at h
    cases hstep : step stack token with
    | error issue => simp [hstep, bind, Except.bind] at h
    | ok next =>
      rw [hstep] at h
      exact .cons (step_moves hstep) (ih h)

theorem foldlM_step_of_run {found : List (Token × Nat)} {stack : Stack} {last : List Construct}
    (h : Run (found.map Prod.fst) (stack.map Prod.fst) last) :
    ∃ stack', found.foldlM step stack = .ok stack' ∧ stack'.map Prod.fst = last := by
  induction found generalizing stack with
  | nil =>
    cases h
    exact ⟨stack, rfl, rfl⟩
  | cons token found ih =>
    obtain ⟨t, line⟩ := token
    cases h with
    | cons hm hr =>
      obtain ⟨next, hstep, hnext⟩ := step_of_moves hm line rfl
      subst hnext
      obtain ⟨stack', hfold, hlast⟩ := ih hr
      refine ⟨stack', ?_, hlast⟩
      rw [List.foldlM_cons, hstep]
      exact hfold

/-! ## Derivations are accepted -/

theorem Run.append {ts us : List Token} {stack next last : List Construct}
    (h : Run ts stack next) (h' : Run us next last) : Run (ts ++ us) stack last := by
  induction h with
  | nil => exact h'
  | cons hm _ ih => exact .cons hm (ih h')

/-- A body between an opener and a closer of one construct leaves the stack as it was. -/
theorem Run.enclosed {first last : Token} {what : Construct} {body : List Token}
    {stack : List Construct} (ho : Opens first what) (hc : Closes last what)
    (hd : what = .block → stack.head? ≠ some .loopHead)
    (hb : Run body (what :: stack) (what :: stack)) :
    Run (first :: body ++ [last]) stack stack :=
  .cons (.opens ho hd) (hb.append (.cons (.closes hc) .nil))

mutual

theorem Block.run {ts : List Token} {stack : List Construct} (h : Block ts)
    (hs : stack.head? ≠ some .loopHead) : Run ts stack stack :=
  match h with
  | .nil => .nil
  | .cons hitem hblock => (hitem.run hs).append (hblock.run hs)

theorem Item.run {ts : List Token} {stack : List Construct} (h : Item ts)
    (hs : stack.head? ≠ some .loopHead) : Run ts stack stack :=
  match h with
  | .simple hsimple => hsimple.run
  | .block hbody => .enclosed .block .block (fun _ => hs) (hbody.run (by simp))

theorem Simple.run {ts : List Token} {stack : List Construct} (h : Simple ts) :
    Run ts stack stack :=
  match h with
  | .plain hp => .cons (.plain hp) .nil
  | .bracket b hbody => .enclosed (.bracket b) (.bracket b) (by simp) (hbody.run (by simp))
  | .function hbody => .enclosed .function .function (by simp) (hbody.run (by simp))
  | .conditional hbody => .enclosed .conditional .conditional (by simp) (hbody.run (by simp))
  | .repetition hbody => .enclosed .repetition .repetition (by simp) (hbody.run (by simp))
  | .loop hfirst hhead hbody => by
    rename_i first head body
    have hopens : Opens first .loopHead := by
      rcases hfirst with rfl | rfl
      · exact .for
      · exact .while
    have hrest : Run (keyword "do" :: body ++ [keyword "end"]) (.loopHead :: stack) stack :=
      .cons .turns ((hbody.run (by simp)).append (.cons (.closes .block) .nil))
    have hwhole := Run.cons (.opens hopens (by simp)) (hhead.run.append hrest)
    simpa using hwhole

theorem Head.run {ts : List Token} {stack : List Construct} (h : Head ts) : Run ts stack stack :=
  match h with
  | .nil => .nil
  | .cons hitem hhead => hitem.run.append hhead.run

end

/-! ## Accepted runs are derivations -/

/-- How tokens read that close the given constructs, the first of them first, and then go on to
the end. -/
inductive Completes : List Construct → List Token → Prop
  | done {block : List Token} : Block block → Completes [] block
  | closes {what : Construct} {stack : List Construct} {body rest : List Token} {t : Token} :
    Block body → Closes t what → Completes stack rest →
    Completes (what :: stack) (body ++ t :: rest)
  | turns {stack : List Construct} {head body rest : List Token} :
    Head head → Block body → Completes stack rest →
    Completes (.loopHead :: stack) (head ++ keyword "do" :: body ++ keyword "end" :: rest)

theorem Completes.simple {item : List Token} {stack : List Construct} {rest : List Token}
    (hitem : Simple item) (h : Completes stack rest) : Completes stack (item ++ rest) := by
  cases h with
  | done hblock => exact .done (.cons (.simple hitem) hblock)
  | closes hbody hc hrest =>
    rw [← List.append_assoc]
    exact .closes (.cons (.simple hitem) hbody) hc hrest
  | turns hhead hbody hrest =>
    rw [List.append_assoc, ← List.append_assoc item, ← List.append_assoc (item ++ _)]
    exact .turns (.cons hitem hhead) hbody hrest

theorem Completes.block {item : List Token} {stack : List Construct} {rest : List Token}
    (hs : stack.head? ≠ some .loopHead) (hitem : Item item) (h : Completes stack rest) :
    Completes stack (item ++ rest) := by
  cases h with
  | done hblock => exact .done (.cons hitem hblock)
  | closes hbody hc hrest =>
    rw [← List.append_assoc]
    exact .closes (.cons hitem hbody) hc hrest
  | turns => exact absurd rfl hs

theorem Simple.enclosed {first last : Token} {what : Construct} {body : List Token}
    (ho : Opens first what) (hc : Closes last what) (hd : what ≠ .block) (hb : Block body) :
    Simple (first :: body ++ [last]) := by
  cases hc with
  | bracket b => cases ho; exact .bracket b hb
  | function => cases ho; exact .function hb
  | conditional => cases ho; exact .conditional hb
  | block => exact absurd rfl hd
  | repetition => cases ho; exact .repetition hb

theorem Completes.opens {t : Token} {what : Construct} {stack : List Construct} {ts : List Token}
    (ho : Opens t what) (hd : what = .block → stack.head? ≠ some .loopHead)
    (h : Completes (what :: stack) ts) : Completes stack (t :: ts) := by
  cases h with
  | @closes _ _ body rest last hbody hc hrest =>
    have hshape : t :: (body ++ last :: rest) = (t :: body ++ [last]) ++ rest := by simp
    rw [hshape]
    by_cases hwhat : what = .block
    · subst hwhat
      cases ho
      cases hc
      exact hrest.block (hd rfl) (.block hbody)
    · exact hrest.simple (.enclosed ho hc hwhat hbody)
  | @turns _ head body rest hhead hbody hrest =>
    have hloop : t = keyword "for" ∨ t = keyword "while" := by
      cases ho
      · exact .inl rfl
      · exact .inr rfl
    have hshape : t :: (head ++ keyword "do" :: body ++ keyword "end" :: rest) =
        (t :: head ++ keyword "do" :: body ++ [keyword "end"]) ++ rest := by simp
    rw [hshape]
    exact hrest.simple (.loop hloop hhead hbody)

theorem Run.completes {ts : List Token} {stack : List Construct} (h : Run ts stack []) :
    Completes stack ts := by
  generalize hlast : ([] : List Construct) = last at h
  induction h with
  | nil =>
    subst hlast
    exact .done .nil
  | @cons t ts _ _ _ hm _ ih =>
    have ih := ih hlast
    cases hm with
    | plain hp => exact ih.simple (.plain hp)
    | opens ho hd => exact .opens ho hd ih
    | turns =>
      cases ih with
      | closes hbody hc hrest =>
        cases hc
        exact .turns .nil hbody hrest
    | closes hc => exact .closes .nil hc ih

/-- **A token sequence closes everything it opens exactly when the block grammar derives it.** -/
theorem run_nil_iff (ts : List Token) : Run ts [] [] ↔ Block ts := by
  constructor
  · intro h
    cases h.completes with
    | done hblock => exact hblock
  · intro h
    exact h.run (by simp)

end RemoteConsole.Script
