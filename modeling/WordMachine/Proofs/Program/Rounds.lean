import WordMachine.Proofs.Program.Emission

/-!
# Rounds of the walk

The second pass goes from item to item until it is behind the last token, or until
an item fails.  Nothing about addresses makes it end: behind an operation of
negative arity the walk stands still or goes back, also to addresses in front of
the tokens, where they are counted from the end.  It ends because every round
emits a word or fails, so that there are no more rounds than words for which there
is room, apart from a last one that finds none.

`Rounds` describes the walk by its single rounds and counts them.
-/

namespace WordMachine

namespace Assembly

/-- What a step leaves: its result or its fault, and the bench. -/
abbrev Ending := EStateM.Result AssemblyFault Workbench Unit

/-- The walk from an address for as long as it is below `stop`, with its number of rounds. -/
inductive Rounds (catalog : Catalog) (stop : Int) : Int → Workbench → Nat → Ending → Prop where
  /-- The walk is behind the last token. -/
  | finished {address : Int} {bench : Workbench} (atEnd : stop ≤ address) :
      Rounds catalog stop address bench 0 (.ok () bench)
  /-- A round fails. -/
  | failed {address : Int} {before after : Workbench} {fault : AssemblyFault}
      (inside : address < stop) (step : assembleItem catalog address before = .error fault after) :
      Rounds catalog stop address before 1 (.error fault after)
  /-- A round succeeds, and the walk goes on where it has led. -/
  | next {address next : Int} {before between : Workbench} {count : Nat} {ending : Ending}
      (inside : address < stop) (step : assembleItem catalog address before = .ok next between)
      (rest : Rounds catalog stop next between count ending) :
      Rounds catalog stop address before (count + 1) ending

namespace Rounds

variable {catalog : Catalog} {stop address : Int} {bench : Workbench} {count : Nat}
  {ending : Ending}

/-- Every round but the last has taken a word of the room. -/
theorem count_le (rounds : Rounds catalog stop address bench count ending) :
    count ≤ bench.room + 1 := by
  induction rounds with
  | finished atEnd => exact Nat.zero_le _
  | failed inside step => exact Nat.le_add_left 1 _
  | next inside step rest tailHolds =>
      have smaller := room_assembleItem step
      omega

/-- A walk has one number of rounds and one ending. -/
theorem unique (rounds : Rounds catalog stop address bench count ending)
    {otherCount : Nat} {otherEnding : Ending}
    (otherRounds : Rounds catalog stop address bench otherCount otherEnding) :
    otherCount = count ∧ otherEnding = ending := by
  induction rounds generalizing otherCount with
  | finished atEnd =>
      cases otherRounds with
      | finished _ => exact ⟨rfl, rfl⟩
      | failed inside _ => omega
      | next inside _ _ => omega
  | failed inside step =>
      cases otherRounds with
      | finished atEnd => omega
      | failed _ again =>
          rw [step] at again
          cases again
          exact ⟨rfl, rfl⟩
      | next _ again _ =>
          rw [step] at again
          cases again
  | next inside step rest tailHolds =>
      cases otherRounds with
      | finished atEnd => omega
      | failed _ again =>
          rw [step] at again
          cases again
      | next _ again otherRest =>
          rw [step] at again
          cases again
          rcases tailHolds otherRest with ⟨rfl, rfl⟩
          exact ⟨rfl, rfl⟩

end Rounds

/-- The walk of the second pass is made of rounds. -/
theorem exists_rounds (catalog : Catalog) (stop address : Int) (bench : Workbench) :
    ∃ count, Rounds catalog stop address bench count (assembleFrom catalog stop address bench) := by
  induction address, bench using assembleFrom.induct catalog stop with
  | case1 address before inside next between step tailHolds =>
      rcases tailHolds with ⟨count, rest⟩
      refine ⟨count + 1, .next inside step ?_⟩
      simp only [assembleFrom_of_lt inside, bind, EStateM.bind, step]
      exact rest
  | case2 address before inside fault between step =>
      refine ⟨1, ?_⟩
      simp only [assembleFrom_of_lt inside, bind, EStateM.bind, step]
      exact .failed inside step
  | case3 address before atEnd =>
      refine ⟨0, ?_⟩
      rw [assembleFrom_of_le (Int.not_lt.mp atEnd)]
      exact .finished (Int.not_lt.mp atEnd)

/-- What the second pass makes of the ending of its walk. -/
def conclude : Ending → Ending
  | .ok _ after => checkEntry after
  | .error fault after => .error fault after

theorem assemble_eq_conclude (catalog : Catalog) (bench : Workbench) :
    assemble catalog bench =
      conclude (assembleFrom catalog bench.nextAddress bench.tokens.base bench) := by
  simp only [assemble, bind, EStateM.bind]
  cases assembleFrom catalog bench.nextAddress bench.tokens.base bench with
  | ok value after => rfl
  | error fault after => rfl

/-- The walk over the tokens of a bench ends, and with it the second pass. -/
structure Ends (catalog : Catalog) (bench : Workbench) (count : Nat) (ending : Ending) : Prop where
  rounds : Rounds catalog bench.nextAddress bench.tokens.base bench count ending
  assemble_eq : assemble catalog bench = conclude ending
  unique : ∀ otherCount otherEnding,
    Rounds catalog bench.nextAddress bench.tokens.base bench otherCount otherEnding →
      otherCount = count ∧ otherEnding = ending

/--
Whatever the tokens, the labels, the image and the arities of the catalog are, the
second pass ends, with a fault or without, after at most one round more than there
are words that fit into the image.
-/
theorem exists_ends_within_room
    (catalog : Catalog) {bench : Workbench}
    (inside : bench.image.length ≤ bench.image.capacity) :
    ∃ count ending,
      Ends catalog bench count ending ∧
        (count : Int) ≤ bench.image.capacity - bench.image.length + 1 := by
  rcases exists_rounds catalog bench.nextAddress bench.tokens.base bench with ⟨count, rounds⟩
  refine ⟨count, _, ⟨rounds, assemble_eq_conclude catalog bench, ?_⟩, ?_⟩
  · intro otherCount otherEnding otherRounds
    exact rounds.unique otherRounds
  · have bound := rounds.count_le
    rw [Workbench.room] at bound
    omega

/-- An operation behind which the walk goes back by one address. -/
def circlingCatalog : Catalog :=
  [⟨"back", -2⟩]

/-- A bench on which the walk goes back to the address in front of the tokens and on again. -/
def circlingBench : Workbench :=
  { Workbench.blank 12 with tokens := ⟨codeStart, #["back", "1"]⟩ }

theorem exists_ends_circlingBench :
    circlingBench.image.length ≤ circlingBench.image.capacity ∧
      ∃ ending,
        Ends circlingCatalog circlingBench 4 ending ∧
          (4 : Int) ≤ circlingBench.image.capacity - circlingBench.image.length + 1 := by
  have inside : circlingBench.image.length ≤ circlingBench.image.capacity := by decide
  rcases exists_ends_within_room circlingCatalog inside with ⟨count, ending, ends, bound⟩
  -- The rounds start at 9, 8, 9 and 8; the last one finds no room.
  have four : ∃ fourth, Rounds circlingCatalog 11 9 circlingBench 4 fourth :=
    ⟨_, .next (by decide) rfl (.next (by decide) rfl (.next (by decide) rfl
      (.failed (by decide) rfl)))⟩
  rcases four with ⟨fourth, rounds⟩
  rcases ends.unique 4 fourth rounds with ⟨rfl, rfl⟩
  exact ⟨inside, fourth, ends, bound⟩

end Assembly

end WordMachine
