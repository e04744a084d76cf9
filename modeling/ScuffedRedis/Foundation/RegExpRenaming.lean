import ScuffedRedis.Foundation.RegExp

/-!
# Renaming the characters of a text

A regular expression that has no set with a character but not with its new name takes of a renamed
text what it takes of the text. Without classes and escapes its sets are those of literals and of
the dot.
-/
namespace Foundation.RegExp

/-! ### Matching -/

def State.map (rename : Char → Char) (x : State) : State :=
  { x with captures := fun i => (x.captures i).map (List.map rename) }

/-- Every set of the pattern has the new names of its characters. -/
def Node.Keeps (rename : Char → Char) : Node → Prop
  | .empty | .backReference _ | .lineStart | .lineEnd => True
  | .characters set => ∀ c, set c = true → set (rename c) = true
  | .wordBoundary _ => ∀ c, isWordChar (rename c) = isWordChar c
  | .sequence first second | .alternatives first second => first.Keeps rename ∧ second.Keeps rename
  | .group _ body | .quantified body _ _ _ _ => body.Keeps rename

namespace Node

variable {rename : Char → Char} {input : List Char} {x y : State}

theorem repeatMatcher_map {atom atom' : State → List State} {reset : State → State}
    (atoms : ∀ x y, y ∈ atom x → y.map rename ∈ atom' (x.map rename))
    (resets : ∀ x : State, (reset x).map rename = reset (x.map rename)) {fuel min : Nat}
    {max : Option Nat} (found : y ∈ repeatMatcher atom reset fuel min max x) :
    y.map rename ∈ repeatMatcher atom' reset fuel min max (x.map rename) := by
  induction fuel generalizing min max x y with
  | zero => simp [repeatMatcher] at found
  | succ fuel ih =>
    rw [repeatMatcher] at found ⊢
    have further (more : y ∈ (atom (reset x)).flatMap fun between =>
        if min = 0 ∧ between.endIndex = x.endIndex then []
        else repeatMatcher atom reset fuel (min - 1) (max.map (· - 1)) between) :
        y.map rename ∈ (atom' (reset (x.map rename))).flatMap fun between =>
          if min = 0 ∧ between.endIndex = (x.map rename).endIndex then []
          else repeatMatcher atom' reset fuel (min - 1) (max.map (· - 1)) between := by
      obtain ⟨between, reached, found⟩ := List.mem_flatMap.mp more
      refine List.mem_flatMap.mpr ⟨between.map rename, resets x ▸ atoms _ _ reached, ?_⟩
      split at found
      · simp at found
      next moved =>
        rw [if_neg (by exact moved)]
        exact ih found
    split
    next ended =>
      rw [if_pos ended, List.mem_singleton] at found
      rw [found]
      exact List.mem_singleton_self _
    next goes =>
      rw [if_neg goes] at found
      split
      next free =>
        rw [if_pos free] at found
        rcases List.mem_append.mp found with found | found
        · exact List.mem_append_left _ (further found)
        · rw [List.mem_singleton.mp found]
          exact List.mem_append_right _ (List.mem_singleton_self _)
      next bound =>
        rw [if_neg bound] at found
        exact further found

theorem isWordAt_map (words : ∀ c, isWordChar (rename c) = isWordChar c) (index : Nat) :
    isWordAt (input.map rename) index = isWordAt input index := by
  rw [isWordAt, isWordAt, List.getElem?_map]
  cases input[index]? with
  | none => rfl
  | some c => exact words c

/-- A pattern takes of the renamed text what it takes of the text. -/
theorem matcher_map {node : Node} (keeps : node.Keeps rename) (found : y ∈ node.matcher input x) :
    y.map rename ∈ node.matcher (input.map rename) (x.map rename) := by
  induction node generalizing x y with
  | empty =>
    rw [matcher, List.mem_singleton] at found ⊢
    rw [found]
  | characters set =>
    obtain ⟨c, rest, text, inside, rfl⟩ := mem_characters.mp found
    refine mem_characters.mpr ⟨rename c, rest.map rename, ?_, keeps c inside, rfl⟩
    rw [← List.map_drop]
    exact congrArg (List.map rename) text
  | backReference index =>
    rw [matcher] at found
    rw [matcher, State.map]
    cases captured : x.captures index with
    | none =>
      simp only [captured, List.mem_singleton, Option.map_none] at found ⊢
      rw [found]
      rfl
    | some text =>
      simp only [captured, Option.map_some] at found ⊢
      split at found
      next front =>
        have front' : (text.map rename).isPrefixOf ((input.map rename).drop x.endIndex) := by
          rw [List.isPrefixOf_iff_prefix] at front ⊢
          rw [← List.map_drop]
          exact front.map rename
        rw [List.mem_singleton] at found
        rw [if_pos front', found, List.length_map]
        exact List.mem_singleton_self _
      · simp at found
  | lineStart =>
    obtain ⟨front, rfl⟩ := mem_lineStart.mp found
    exact mem_lineStart.mpr ⟨front, rfl⟩
  | lineEnd =>
    obtain ⟨back, rfl⟩ := mem_lineEnd.mp found
    exact mem_lineEnd.mpr ⟨by rw [List.length_map]; exact back, rfl⟩
  | wordBoundary negated =>
    simp only [matcher] at found
    split at found
    next bound =>
      have taken : (wordBoundary negated).matcher (input.map rename) (x.map rename) =
          [x.map rename] := by
        simp only [matcher, isWordAt_map keeps]
        exact if_pos bound
      rw [List.mem_singleton.mp found, taken]
      exact List.mem_singleton_self _
    · simp at found
  | sequence first second ihFirst ihSecond =>
    obtain ⟨between, reached, found⟩ := mem_sequence.mp found
    exact mem_sequence.mpr ⟨_, ihFirst keeps.1 reached, ihSecond keeps.2 found⟩
  | alternatives first second ihFirst ihSecond =>
    rcases List.mem_append.mp found with found | found
    · exact List.mem_append_left _ (ihFirst keeps.1 found)
    · exact List.mem_append_right _ (ihSecond keeps.2 found)
  | group index body ih =>
    -- What the group captures is a part of the text, and is renamed with it.
    obtain ⟨between, reached, rfl⟩ := List.mem_map.mp found
    refine List.mem_map.mpr ⟨_, ih keeps reached, ?_⟩
    simp only [State.map, State.mk.injEq, true_and]
    funext i
    by_cases same : i = index
    · simp [same, List.map_drop, List.map_take]
    · simp [same]
  | quantified body min max outside inside ih =>
    -- The captures of the body are reset before each turn, renamed or not.
    simp only [matcher, List.length_map] at found ⊢
    refine repeatMatcher_map (fun x y => ih keeps) (fun x => ?_) found
    simp only [State.map, State.mk.injEq, true_and]
    funext i
    split <;> rfl

theorem test_map {node : Node} (keeps : node.Keeps rename) (matched : node.test input = true) :
    node.test (input.map rename) = true := by
  obtain ⟨index, inside, y, found, -⟩ := test_iff.mp matched
  refine test_iff.mpr ⟨index, by rwa [List.length_map], _, matcher_map keeps found, trivial⟩

end Node

/-! ### The constructor -/

section Keeps

variable {rename : Char → Char}

def Token.Keeps (rename : Char → Char) : Token → Prop
  | .atom node | .assertion node => node.Keeps rename
  | .quantifier _ _ | .opening | .closing | .bar => True

structure Frame.Keeps (rename : Char → Char) (frame : Frame) : Prop where
  before : ∀ node ∈ frame.before, node.Keeps rename
  terms : frame.terms.Keeps rename
  last : ∀ atom ∈ frame.last, atom.1.Keeps rename

theorem Frame.Keeps.alternative {frame : Frame} (keeps : frame.Keeps rename) :
    frame.alternative.Keeps rename := by
  rw [Frame.alternative]
  split
  next atom _ last => exact ⟨keeps.terms, keeps.last _ last⟩
  · exact keeps.terms

theorem Frame.Keeps.disjunction {frame : Frame} (keeps : frame.Keeps rename) :
    frame.disjunction.Keeps rename := by
  rw [Frame.disjunction]
  split
  next node before => exact ⟨keeps.before _ before, keeps.alternative⟩
  · exact keeps.alternative

theorem Frame.Keeps.push {frame : Frame} (keeps : frame.Keeps rename) {atom : Node}
    (kept : atom.Keeps rename) (groups : Nat) : (frame.push atom groups).Keeps rename where
  before := keeps.before
  terms := keeps.alternative
  last := by simpa [Frame.push] using kept

theorem Frame.keeps_start : Frame.start.Keeps rename :=
  ⟨by simp [Frame.start], trivial, by simp [Frame.start]⟩

structure Reading.Keeps (rename : Char → Char) (reading : Reading) : Prop where
  frame : reading.frame.Keeps rename
  around : ∀ outer ∈ reading.around, outer.1.Keeps rename

theorem Reading.Keeps.accept {reading next : Reading} {token : Token}
    (keeps : reading.Keeps rename) (kept : token.Keeps rename)
    (accepted : reading.accept token = some next) : next.Keeps rename := by
  cases token with
  | atom node =>
    cases accepted
    exact ⟨keeps.frame.push kept _, keeps.around⟩
  | assertion node =>
    cases accepted
    exact ⟨⟨keeps.frame.before, ⟨keeps.frame.alternative, kept⟩, by simp⟩, keeps.around⟩
  | quantifier min max =>
    rw [Reading.accept] at accepted
    split at accepted
    · cases accepted
    next atom groups last =>
      split at accepted
      · cases accepted
      · cases accepted
        exact ⟨⟨keeps.frame.before, ⟨keeps.frame.terms, keeps.frame.last _ last⟩, by simp⟩,
          keeps.around⟩
  | bar =>
    cases accepted
    exact ⟨⟨by simpa using keeps.frame.disjunction, trivial, by simp⟩, keeps.around⟩
  | opening =>
    cases accepted
    exact ⟨Frame.keeps_start, List.forall_mem_cons.mpr ⟨keeps.frame, keeps.around⟩⟩
  | closing =>
    rw [Reading.accept] at accepted
    split at accepted
    · cases accepted
    next frame index around outer =>
      cases accepted
      have outside := keeps.around
      rw [outer, List.forall_mem_cons] at outside
      have grouped : (Node.group index reading.frame.disjunction).Keeps rename :=
        keeps.frame.disjunction
      exact ⟨outside.1.push grouped _, outside.2⟩

theorem Reading.Keeps.run {reading last : Reading} {listed : List Token}
    (keeps : reading.Keeps rename) (kept : ∀ token ∈ listed, token.Keeps rename)
    (ran : listed.foldlM Reading.accept reading = some last) : last.Keeps rename := by
  induction listed generalizing reading with
  | nil =>
    cases ran
    exact keeps
  | cons token listed ih =>
    rw [List.forall_mem_cons] at kept
    rw [List.foldlM_cons, Option.bind_eq_bind, Option.bind_eq_some_iff] at ran
    obtain ⟨next, accepted, rest⟩ := ran
    exact ih (keeps.accept kept.1 accepted) kept.2 rest

/-- A compiled pattern keeps what all its tokens keep. -/
theorem compile_keeps {source : List Char} {node : Node}
    (kept : ∀ groups listed, tokens groups source.length source = some listed →
      ∀ token ∈ listed, token.Keeps rename)
    (made : compile source = some node) : node.Keeps rename := by
  obtain ⟨outline, -, made⟩ := Option.bind_eq_some_iff.mp made
  obtain ⟨listed, read, made⟩ := Option.bind_eq_some_iff.mp made
  obtain ⟨reading, ran, made⟩ := Option.bind_eq_some_iff.mp made
  have start : Reading.start.Keeps rename := ⟨Frame.keeps_start, List.forall_mem_nil _⟩
  split at made
  · cases made
    exact (start.run (kept _ listed read) ran).frame.disjunction
  · cases made

theorem bracedQuantifier_suffix {text after : List Char} {min : Nat} {max : Option Nat}
    (read : bracedQuantifier text = some (min, max, after)) : after <:+ text := by
  have dropped (text : List Char) : text.dropWhile Char.isDigit <:+ text := List.dropWhile_suffix _
  rw [bracedQuantifier] at read
  split at read
  · cases read
  · split at read
    next rest closed =>
      cases read
      exact (closed ▸ List.suffix_cons _ after).trans (dropped text)
    next rest comma =>
      have inner : rest <:+ text := (comma ▸ List.suffix_cons _ rest).trans (dropped text)
      split at read
      next rest' closed =>
        cases read
        exact ((closed ▸ List.suffix_cons _ after).trans (dropped rest)).trans inner
      · cases read
    · cases read

/-- The first token of a text without classes and escapes, if the renaming leaves the characters
that are literals and the lines. -/
theorem token_keeps {groups : Nat} {first : Char} {rest after : List Char} {listed : Token}
    (literals : ∀ c, punctuator c = none → rename c = c)
    (lines : ∀ c, isLineTerminator c = false → isLineTerminator (rename c) = false)
    (class' : first ≠ '[') (escape : first ≠ '\\')
    (read : token groups (first :: rest) = some (listed, after)) :
    listed.Keeps rename ∧ after <:+ rest := by
  -- The set of a literal has one character, which keeps its name.
  have single (plain : punctuator first = none) : (Node.literal first.toNat).Keeps rename := by
    intro c same
    have equal : c = first := by simpa [Char.toNat_inj] using same
    simp [equal, literals first plain]
  rw [token] at read
  cases special : punctuator first with
  | some found =>
    simp only [special, Option.some.injEq, Prod.mk.injEq] at read
    obtain ⟨rfl, rfl⟩ := read
    refine ⟨?_, List.suffix_rfl⟩
    unfold punctuator at special
    split at special <;> cases special <;> try trivial
    intro c inside
    simpa using lines c (by simpa using inside)
  | none =>
    simp only [special, if_neg class', if_neg escape] at read
    split at read
    · split at read
      next braced =>
        cases read
        exact ⟨trivial, bracedQuantifier_suffix braced⟩
      · cases read
        exact ⟨single special, List.suffix_rfl⟩
    · cases read
      exact ⟨single special, List.suffix_rfl⟩

theorem tokens_keep {groups fuel : Nat} {text : List Char} {listed : List Token}
    (literals : ∀ c, punctuator c = none → rename c = c)
    (lines : ∀ c, isLineTerminator c = false → isLineTerminator (rename c) = false)
    (class' : '[' ∉ text) (escape : '\\' ∉ text) (read : tokens groups fuel text = some listed) :
    ∀ token ∈ listed, token.Keeps rename := by
  induction fuel generalizing text listed with
  | zero =>
    cases text with
    | nil =>
      cases read
      exact List.forall_mem_nil _
    | cons first rest => cases read
  | succ fuel ih =>
    cases text with
    | nil =>
      cases read
      exact List.forall_mem_nil _
    | cons first rest =>
      obtain ⟨⟨found, after⟩, front, read⟩ := Option.bind_eq_some_iff.mp read
      obtain ⟨others, back, read⟩ := Option.bind_eq_some_iff.mp read
      cases read
      rw [List.mem_cons, not_or] at class' escape
      obtain ⟨kept, suffix⟩ := token_keeps literals lines (Ne.symm class'.1) (Ne.symm escape.1)
        front
      refine List.forall_mem_cons.mpr ⟨kept, ih ?_ ?_ back⟩
      · exact fun inside => class'.2 (suffix.subset inside)
      · exact fun inside => escape.2 (suffix.subset inside)

end Keeps
end Foundation.RegExp
