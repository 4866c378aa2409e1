import Pl0.TokenStream

set_option autoImplicit false

namespace Pl0

open StateExcept

/-- The current token and the tokens that `getToken` has still to deliver. -/
def ParseState.stream (s : ParseState) : List CurrentToken :=
  s.curToken :: seen s.tokenFile

/-- `s` is a parse that has read on to `rest` and no further. -/
def ReadOnTo (rest : List CurrentToken) (s : ParseState) : Prop :=
  s.feof = s.tokenFile.isEmpty ∧
    match rest with
    | [] => s.curToken.cToken = .nulsym ∧ s.tokenFile = []
    | token :: behind => s.curToken = token ∧ seen s.tokenFile = behind

/-- Neither set has the token, and it is not the end of the file. -/
def outside (s1 s2 : Symset) (token : CurrentToken) : Bool :=
  !inset token.cToken s1 && !inset token.cToken s2 && token.cToken != .nulsym

theorem readOnTo_stream {s : ParseState} (coherent : s.feof = s.tokenFile.isEmpty) :
    ReadOnTo s.stream s :=
  ⟨coherent, rfl, rfl⟩

/-- The stream after a read is the rest of the stream before it. -/
theorem getToken_readOnTo {s s' : ParseState} {token : CurrentToken} {behind : List CurrentToken}
    (at_ : ReadOnTo (token :: behind) s) (read : getToken s = .ok () s') :
    ReadOnTo behind s' ∧ s'.reports = s.reports ∧ s'.gen = s.gen := by
  obtain ⟨coherent, -, rfl⟩ := at_
  have next := modify_eq_ok.mp read
  subst next
  cases empty : s.tokenFile with
  | nil =>
      have atEnd : s.feof = true := by rw [coherent, empty]; rfl
      rw [if_pos atEnd]
      exact ⟨⟨atEnd, rfl, rfl⟩, rfl, rfl⟩
  | cons first file =>
      have inside : ¬ s.feof = true := by
        rw [coherent, empty]
        simp
      rw [if_neg inside, ← empty]
      have some : s.tokenFile ≠ [] := by
        rw [empty]
        simp
      rcases scanToken_seen s.curToken some with ⟨rest, here, behind⟩ | ⟨none, ends, behind⟩
      · rw [here]
        exact ⟨⟨rfl, rfl, behind⟩, rfl, rfl⟩
      · rw [none]
        exact ⟨⟨rfl, ends, behind⟩, rfl, rfl⟩

/-- Where the parse stands behind the tokens outside of both sets, it has the first
token that is not, or the end of the file. -/
theorem ReadOnTo.resumed {s1 s2 : Symset} {tokens : List CurrentToken} {s : ParseState}
    (at_ : ReadOnTo (tokens.dropWhile (outside s1 s2)) s) :
    inset s.curToken.cToken s1 = true ∨ inset s.curToken.cToken s2 = true ∨
      s.curToken.cToken = .nulsym := by
  cases rest : tokens.dropWhile (outside s1 s2) with
  | nil =>
      rw [rest] at at_
      exact Or.inr (Or.inr at_.2.1)
  | cons token behind =>
      rw [rest] at at_
      have stays : ¬ outside s1 s2 token = true := by
        have first := List.head_dropWhile_not (outside s1 s2) (l := tokens) (by simp [rest])
        simpa [rest] using first
      rw [at_.2.1]
      simp only [outside, Bool.and_eq_true, Bool.not_eq_true', bne_iff_ne, not_and_or,
        Bool.not_eq_false, not_not] at stays
      rcases stays with (first | second) | last
      · exact Or.inl first
      · exact Or.inr (Or.inl second)
      · exact Or.inr (Or.inr last)

theorem getToken_returns (s : ParseState) : ∃ s', getToken s = .ok () s' :=
  ⟨_, modify_eq_ok.mpr rfl⟩

theorem skipLoop_stops {set : Symset} {s : ParseState} (fuel : Nat)
    (stops : inset s.curToken.cToken set = true ∨ s.curToken.cToken = .nulsym) :
    skipLoop set (fuel + 1) s = .ok () s := by
  rw [skipLoop, get_bind_eq_ok, if_pos stops]
  rfl

/-- The loop of `test` passes over the tokens outside of both sets and stops behind
the last of them. -/
theorem skipLoop_returns (s1 s2 : Symset) {tokens : List CurrentToken} {s : ParseState}
    (at_ : ReadOnTo tokens s) (fuel : Nat) (enough : tokens.length < fuel) :
    ∃ s', skipLoop (uniteset s1 s2) fuel s = .ok () s' ∧
      ReadOnTo (tokens.dropWhile (outside s1 s2)) s' ∧ s'.gen = s.gen ∧
      s'.reports = s.reports ++
        (tokens.takeWhile (outside s1 s2)).map fun token => .skip token.cToken := by
  induction tokens generalizing s fuel with
  | nil =>
      obtain ⟨fuel, rfl⟩ : ∃ more, fuel = more + 1 := ⟨fuel - 1, by simp at enough; omega⟩
      exact ⟨s, skipLoop_stops fuel (Or.inr at_.2.1), at_, rfl, by simp⟩
  | cons token behind ih =>
      obtain ⟨fuel, rfl⟩ : ∃ more, fuel = more + 1 := ⟨fuel - 1, by simp at enough; omega⟩
      have current : s.curToken = token := at_.2.1
      by_cases skips : outside s1 s2 token = true
      · have goesOn : ¬ (inset s.curToken.cToken (uniteset s1 s2) = true ∨
            s.curToken.cToken = .nulsym) := by
          simp only [outside, Bool.and_eq_true, Bool.not_eq_true', bne_iff_ne] at skips
          rw [inset_uniteset, current, skips.1.1, skips.1.2]
          simpa using skips.2
        let reported : ParseState :=
          { s with reports := s.reports ++ [.skip s.curToken.cToken] }
        obtain ⟨next, read⟩ := getToken_returns reported
        have at_' : ReadOnTo (token :: behind) reported := at_
        obtain ⟨behindAt, reports, gen⟩ := getToken_readOnTo at_' read
        obtain ⟨s', returned, stopped, gen', reports'⟩ :=
          ih behindAt fuel (Nat.lt_of_succ_lt_succ enough)
        refine ⟨s', ?_, by simpa [skips] using stopped, gen'.trans gen, ?_⟩
        · rw [skipLoop, get_bind_eq_ok, if_neg goesOn]
          exact bind_eq_ok.mpr ⟨(), reported, rfl, bind_eq_ok.mpr ⟨(), next, read, returned⟩⟩
        · rw [reports', reports, List.takeWhile_cons, if_pos skips, List.map_cons, ← current]
          exact List.append_assoc _ _ _
      · refine ⟨s, skipLoop_stops fuel ?_, by simpa [skips] using at_, rfl, by simp [skips]⟩
        rw [current, inset_uniteset]
        simp only [outside, Bool.and_eq_true, Bool.not_eq_true', bne_iff_ne, not_and_or,
          Bool.not_eq_false, not_not] at skips
        simpa using skips

/-- A parse whose current token is `cur` and whose token file has `file` left. -/
def ParseState.at (s : ParseState) (cur : CurrentToken) (file : List CurrentToken) : ParseState :=
  { s with curToken := cur, tokenFile := file, feof := file.isEmpty }

/-- `test` resynchronises: it is silent at a token of its first set, and otherwise
reports once and passes over the longest run of tokens outside of both sets. -/
theorem test_resynchronises (s1 s2 : Symset) (errorType : Nat) (globals : ParseState)
    (cur : CurrentToken) (file : List CurrentToken) :
    ∃ rounds, ∀ fuel, rounds ≤ fuel → ∃ s',
      test fuel s1 s2 errorType (globals.at cur file) = .ok () s' ∧
      (inset cur.cToken s1 = true → s' = globals.at cur file) ∧
      (inset cur.cToken s1 = false →
        s'.reports = globals.reports ++ [.recovery, .error errorType] ++
          ((cur :: seen file).takeWhile (outside s1 s2)).map (fun token => .skip token.cToken) ∧
        ReadOnTo ((cur :: seen file).dropWhile (outside s1 s2)) s' ∧ s'.gen = globals.gen ∧
        (inset s'.curToken.cToken s1 = true ∨ inset s'.curToken.cToken s2 = true ∨
          s'.curToken.cToken = .nulsym)) := by
  refine ⟨(seen file).length + 2, fun fuel enough => ?_⟩
  cases inside : inset cur.cToken s1 with
  | true =>
      refine ⟨globals.at cur file, ?_, fun _ => rfl, fun other => by cases other⟩
      have first : inset (globals.at cur file).curToken.cToken s1 = true := inside
      rw [test, get_bind_eq_ok, if_pos first]
      rfl
  | false =>
      have outsideFirst : ¬ inset (globals.at cur file).curToken.cToken s1 = true := by
        simp [ParseState.at, inside]
      let reported : ParseState :=
        { globals.at cur file with
          reports := globals.reports ++ [.recovery] ++ [.error errorType] }
      have at_ : ReadOnTo (cur :: seen file) reported := readOnTo_stream rfl
      obtain ⟨s', skipped, stopped, gen, reports⟩ :=
        skipLoop_returns s1 s2 at_ fuel (by simp; omega)
      refine ⟨s', ?_, (fun other => by cases other), fun _ => ⟨?_, stopped, gen, ?_⟩⟩
      · rw [test, get_bind_eq_ok, if_neg outsideFirst]
        exact bind_eq_ok.mpr ⟨(), _, rfl, bind_eq_ok.mpr ⟨(), reported, rfl, skipped⟩⟩
      · rw [reports]
        simp [reported]
      · exact stopped.resumed

end Pl0
