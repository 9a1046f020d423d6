import Mathlib.Algebra.GroupWithZero.Nat
import Mathlib.Algebra.Order.BigOperators.Group.List
import Mathlib.Algebra.Order.Group.Nat
import Mathlib.Data.List.Perm.Subperm
import EditorSettings.Proofs.Glob.Compiled
import EditorSettings.Proofs.Glob.Load

/-! # What a pattern pays for the load of its program

Every token pays one, and what is built of the tokens never demands more than they have paid
(`price_feed`).  Two runs are never neighbours, so between two of them there is a node that keeps no
choice point, or a choice whose braces and commas have paid for more than it keeps.  So a program demands
twice its load and one more, less one for each end at which it has a run.
-/

namespace EditorSettings

/-! ## The demand of a program -/

def runCount : Option Node → Nat
  | some (.run _) => 1
  | _ => 0

/-- How many tokens a program is made of at the least. -/
def demand (p : Program) : Nat :=
  if p = [] then 0 else 2 * programLoad p + 1 - runCount p.head? - runCount p.getLast?

theorem runCount_le_load (n : Node) : runCount (some n) ≤ nodeLoad n := by
  cases n <;> simp [runCount, nodeLoad]

theorem runCount_le (n : Option Node) : runCount n ≤ 1 := by
  unfold runCount
  split <;> omega

theorem nodeLoad_le_of_mem {p : Program} {n : Node} (member : n ∈ p) : nodeLoad n ≤ programLoad p := by
  induction p with
  | nil => cases member
  | cons m p ih =>
    simp only [programLoad]
    obtain rfl | member := List.mem_cons.1 member
    · omega
    · have := ih member
      omega

theorem runCount_le_programLoad {p : Program} {n : Option Node} (member : ∀ m ∈ n, m ∈ p) :
    runCount n ≤ programLoad p := by
  cases n with
  | none => exact Nat.zero_le _
  | some m => exact Nat.le_trans (runCount_le_load m) (nodeLoad_le_of_mem (member m rfl))

theorem ends_le_load (p : Program) :
    runCount p.head? ≤ programLoad p ∧ runCount p.getLast? ≤ programLoad p :=
  ⟨runCount_le_programLoad fun _ => List.mem_of_mem_head?,
    runCount_le_programLoad fun _ => List.mem_of_mem_getLast?⟩

/-- The demand as a sum: the runs at the ends are never more than the load. -/
theorem demand_eq {p : Program} (ne : p ≠ []) :
    demand p + runCount p.head? + runCount p.getLast? = 2 * programLoad p + 1 := by
  obtain ⟨first, last⟩ := ends_le_load p
  rw [demand, if_neg ne]
  omega

@[simp] theorem demand_nil : demand [] = 0 := rfl

theorem demand_pos {p : Program} (ne : p ≠ []) : 0 < demand p := by
  obtain ⟨first, last⟩ := ends_le_load p
  have first' := runCount_le p.head?
  have last' := runCount_le p.getLast?
  have eq := demand_eq ne
  omega

theorem load_le_demand (p : Program) : 2 * programLoad p ≤ demand p + 1 := by
  by_cases ne : p = []
  · simp [ne, programLoad]
  · have eq := demand_eq ne
    have first := runCount_le p.head?
    have last := runCount_le p.getLast?
    omega

/-! ## Building -/

theorem runCount_merged {fuse : Bool} {m n merged : Node} (h : Builder.merge? fuse m n = some merged) :
    runCount (some merged) = runCount (some m) ∧ runCount (some merged) = runCount (some n) ∧
      nodeLoad merged = nodeLoad m := by
  rcases Builder.eq_of_merge? h with ⟨rfl, rfl, rfl⟩ | ⟨_, s, t, rfl, rfl, rfl⟩ |
    ⟨_, c, d, rfl, rfl, rfl⟩
  · exact ⟨rfl, rfl, rfl⟩
  · exact ⟨rfl, rfl, rfl⟩
  · exact ⟨rfl, rfl, rfl⟩

/-- Runs are merged into the last node, so an appended run comes after no other. -/
theorem runCount_of_apart {m n : Node} (h : Builder.merge? true m n = none) :
    runCount (some m) = 0 ∨ runCount (some n) = 0 := by
  cases m with
  | run c =>
    cases n with
    | run d => cases h
    | atom _ | choice _ => exact .inr rfl
  | atom _ | choice _ => exact .inl rfl

theorem push_ends (b : Builder) (n : Node) :
    runCount (b.push true n).program.getLast? = runCount (some n) ∧
      (b.push true n).program ≠ [] ∧
      programLoad (b.push true n).program ≤ programLoad b.program + nodeLoad n ∧
      (b.program ≠ [] →
        runCount (b.push true n).program.head? = runCount b.program.head?) := by
  obtain ⟨pushed, _⟩ | ⟨p, last, merged, whole, joined, pushed⟩ := b.program_push true n
  · rw [pushed]
    refine ⟨by simp, by simp, by simp [programLoad_append, programLoad], fun ne => ?_⟩
    rw [List.head?_append_of_ne_nil _ ne]
  · rw [pushed, whole]
    obtain ⟨left, right, load⟩ := runCount_merged joined
    refine ⟨by simpa using right, by simp, ?_, fun _ => ?_⟩
    · simp only [programLoad_append, programLoad, load]
      omega
    · cases p with
      | nil => exact left
      | cons _ _ => rfl

/-- A node that is pushed adds no more than it demands alone. -/
theorem demand_push (b : Builder) (n : Node) :
    demand (b.push true n).program ≤ demand b.program + demand [n] := by
  by_cases empty : b.program = []
  · have start : b = .empty := by
      rw [← b.ofProgram_program, empty]
      rfl
    rw [start, Builder.push_empty, Builder.program_ofProgram]
    simp
  obtain ⟨last, ne, load, first⟩ := push_ends b n
  have new := demand_eq ne
  have old := demand_eq empty
  have alone := demand_eq (List.cons_ne_nil n [])
  simp only [List.head?_cons, List.getLast?_singleton, programLoad] at alone
  rw [last, first empty] at new
  obtain ⟨pushed, apart⟩ | ⟨p, last, merged, whole, joined, pushed⟩ := b.program_push true n
  · rw [List.getLast?_eq_some_getLast empty] at old
    have apart := runCount_of_apart (apart _ (List.getLast?_eq_some_getLast empty))
    have left := runCount_le (some (b.program.getLast empty))
    have right := runCount_le (some n)
    omega
  -- a merged node keeps no more than the node it was before
  · obtain ⟨left, right, same⟩ := runCount_merged joined
    have load : programLoad (b.push true n).program = programLoad b.program := by
      simp only [pushed, whole, programLoad_append, programLoad, same]
    have ends : runCount b.program.getLast? = runCount (some n) := by
      rw [whole, List.getLast?_concat, ← left, right]
    have := runCount_le_load n
    omega

theorem demand_pushSymbol (b : Builder) (s : Symbol) :
    demand (b.pushSymbol true s).program ≤ demand b.program + 1 := by
  refine Nat.le_trans (demand_push b _) (Nat.add_le_add_left ?_ _)
  split <;> exact Nat.le_refl 1

theorem extend_ends {b : Builder} (ne : b.program ≠ []) (p : Program) :
    (b.extend true p).program ≠ [] ∧
      programLoad (b.extend true p).program ≤ programLoad b.program + programLoad p ∧
      runCount (b.extend true p).program.head? = runCount b.program.head? ∧
      (p ≠ [] → runCount (b.extend true p).program.getLast? = runCount p.getLast?) := by
  induction p using List.reverseRecOn with
  | nil => simpa [programLoad] using ne
  | append_singleton p n ih =>
    obtain ⟨ne', load, first, _⟩ := ih
    obtain ⟨last, filled, load', first'⟩ := push_ends (b.extend true p) n
    rw [Builder.extend_append, Builder.extend_cons, Builder.extend_nil]
    refine ⟨filled, ?_, (first' ne').trans first, fun _ => by simpa using last⟩
    simp only [programLoad_append, programLoad]
    omega

theorem demand_extend {b : Builder} (ne : b.program ≠ []) (ends : runCount b.program.getLast? = 0)
    (p : Program) : demand (b.extend true p).program ≤ demand b.program + demand p := by
  by_cases empty : p = []
  · simp [empty]
  obtain ⟨ne', load, first, last⟩ := extend_ends ne p
  have all := demand_eq ne'
  rw [first, last empty] at all
  have before := demand_eq ne
  have more := demand_eq empty
  have start := runCount_le p.head?
  omega

theorem demand_extend_pushSymbol (b : Builder) (s : Symbol) (p : Program) :
    demand ((b.pushSymbol true s).extend true p).program ≤ demand b.program + 1 + demand p := by
  have symbol (n : Node) (none : runCount (some n) = 0) :
      (b.push true n).program ≠ [] ∧ runCount (b.push true n).program.getLast? = 0 := by
    obtain ⟨last, ne, _⟩ := push_ends b n
    exact ⟨ne, last.trans none⟩
  have ends : (b.pushSymbol true s).program ≠ [] ∧
      runCount (b.pushSymbol true s).program.getLast? = 0 := by
    unfold Builder.pushSymbol
    split
    · exact symbol _ rfl
    · exact symbol _ rfl
  have written := demand_extend ends.1 ends.2 p
  have first := demand_pushSymbol b s
  omega

/-! ## Groups -/

/-- What branches demand with a comma or a brace after each. -/
def branchesDemand (branches : List Program) : Nat := (branches.map fun b => demand b + 1).sum

@[simp] theorem branchesDemand_nil : branchesDemand [] = 0 := rfl

@[simp] theorem branchesDemand_cons (b : Program) (branches : List Program) :
    branchesDemand (b :: branches) = demand b + 1 + branchesDemand branches := rfl

/-- Branches of which only the first may be empty keep fewer choice points than their commas and
braces pay for. -/
theorem branchesLoad_le {branches : List Program} (filled : ∀ b ∈ branches.tail, b ≠ []) :
    2 * branchesLoad branches ≤ branchesDemand branches := by
  induction branches with
  | nil => rfl
  | cons b rest ih =>
    rw [List.tail_cons] at filled
    have later := ih fun c member => filled c (List.mem_of_mem_tail member)
    have here := load_le_demand b
    rw [branchesLoad, branchesDemand_cons]
    cases rest with
    | nil => simp only [branchesLoad, List.length_nil]; omega
    | cons c rest =>
      -- the choice point for the other branches is paid by one of them, which is not empty
      have other := demand_pos (filled c List.mem_cons_self)
      rw [branchesDemand_cons] at later ⊢
      have room : min 1 (c :: rest).length = 1 := by simp
      omega

theorem branchesDemand_le {branches branches' : List Program} (nodup : branches.Nodup)
    (subset : branches ⊆ branches') : branchesDemand branches ≤ branchesDemand branches' := by
  obtain ⟨sub, perm, sublist⟩ := List.Nodup.subperm nodup subset
  have same : branchesDemand sub = branchesDemand branches := (perm.map fun b => demand b + 1).sum_eq
  have less : branchesDemand sub ≤ branchesDemand branches' :=
    (sublist.map fun b => demand b + 1).sum_le_sum fun _ _ => Nat.zero_le _
  exact same ▸ less

theorem demand_choice (branches : List Program) :
    demand [.choice (OpenGroup.arrange branches)] ≤ branchesDemand branches + 1 := by
  have load : 2 * branchesLoad (OpenGroup.arrange branches) ≤
      branchesDemand (OpenGroup.arrange branches) :=
    branchesLoad_le fun b => OpenGroup.ne_nil_of_mem_tail_arrange
  have fewer : branchesDemand (OpenGroup.arrange branches) ≤ branchesDemand branches :=
    branchesDemand_le (nodup_eraseDups _) fun b => OpenGroup.mem_arrange.1
  have eq := demand_eq (List.cons_ne_nil (Node.choice (OpenGroup.arrange branches)) [])
  simp only [List.head?_cons, List.getLast?_singleton, programLoad, nodeLoad, runCount] at eq
  omega

/-- What has been paid for an open group: its brace, what stands before it and its branches. -/
def OpenGroup.price (g : OpenGroup) : Nat :=
  demand g.before.program + 1 + branchesDemand g.finished

theorem branchesDemand_append (bs cs : List Program) :
    branchesDemand (bs ++ cs) = branchesDemand bs + branchesDemand cs := by
  simp [branchesDemand]

theorem branchesDemand_branches (g : OpenGroup) (last : Program) :
    branchesDemand (g.branches last) = branchesDemand g.finished + demand last + 1 := by
  have reversed : branchesDemand g.finished.reverse = branchesDemand g.finished := by
    simp [branchesDemand, List.sum_reverse]
  rw [OpenGroup.branches, branchesDemand_append, reversed]
  simp
  omega

theorem demand_close (g : OpenGroup) (last : Program) :
    demand (g.close true last).program ≤ demand last + g.price + 1 := by
  unfold OpenGroup.close OpenGroup.price
  split
  · have opened := demand_extend_pushSymbol g.before (.scalar '{') last
    have closed := demand_pushSymbol ((g.before.pushSymbol true (.scalar '{')).extend true last)
      (.scalar '}')
    omega
  · have pushed := demand_push g.before (.choice (OpenGroup.arrange (g.branches last)))
    have choice := demand_choice (g.branches last)
    rw [branchesDemand_branches] at choice
    omega

theorem demand_afterCommas (others : List Program) (out : Builder) :
    demand (others.foldl (fun b branch => (b.pushSymbol true (.scalar ',')).extend true branch)
      out).program ≤ demand out.program + branchesDemand others := by
  induction others generalizing out with
  | nil => exact Nat.le_refl _
  | cons b others ih =>
    have here := demand_extend_pushSymbol out (.scalar ',') b
    have later := ih ((out.pushSymbol true (.scalar ',')).extend true b)
    rw [List.foldl_cons, branchesDemand_cons]
    omega

theorem demand_writeOut (g : OpenGroup) (last : Program) :
    demand (g.writeOut true last).program ≤ demand last + g.price := by
  have all := branchesDemand_branches g last
  unfold OpenGroup.writeOut OpenGroup.price
  simp only
  split
  next empty =>
    rw [empty, branchesDemand_nil] at all
    omega
  next first others cut =>
    rw [cut, branchesDemand_cons] at all
    have written := demand_extend_pushSymbol g.before (.scalar '{') first
    have more := demand_afterCommas others ((g.before.pushSymbol true (.scalar '{')).extend true first)
    omega

/-! ## Drafts -/

def Draft.price (d : Draft) : Nat := demand d.out.program + (d.groups.map OpenGroup.price).sum

theorem price_pushSymbol (d : Draft) (s : Symbol) : (d.pushSymbol true s).price ≤ d.price + 1 := by
  have pushed := demand_pushSymbol d.out s
  simp only [Draft.price, Draft.pushSymbol]
  omega

/-- A token pays for what it adds. -/
theorem price_feed {slashes : Prop} (d : Draft) {t : Token} (fits : t.Fits slashes) :
    (d.feed true t).price ≤ d.price + 1 := by
  obtain ⟨out, groups⟩ := d
  have single {n : Node} (one : demand [n] = 1) :
      Draft.price ⟨out.push true n, groups⟩ ≤ Draft.price ⟨out, groups⟩ + 1 := by
    have pushed := demand_push out n
    simp only [Draft.price]
    omega
  cases t with
  | boundary => exact single rfl
  | symbol s => exact price_pushSymbol ⟨out, groups⟩ s
  | node n =>
    cases n with
    | atom _ | run _ => exact single rfl
    | choice branches => exact (every_choice.1 fits).1.elim
  | openGroup =>
    simp [Draft.feed, Draft.price, OpenGroup.price]
    omega
  | comma =>
    cases groups with
    | nil => exact price_pushSymbol ⟨out, []⟩ _
    | cons g outer =>
      simp [Draft.feed, Draft.price, OpenGroup.price]
      omega
  | closeGroup =>
    cases groups with
    | nil => exact price_pushSymbol ⟨out, []⟩ _
    | cons g outer =>
      have closed := demand_close g out.program
      simp only [Draft.feed, Draft.price, List.map_cons, List.sum_cons]
      omega

theorem price_feedAll {slashes : Prop} (d : Draft) {tokens : List Token}
    (fits : ∀ t ∈ tokens, t.Fits slashes) : (d.feedAll true tokens).price ≤ d.price + tokens.length := by
  induction tokens generalizing d with
  | nil => exact Nat.le_refl _
  | cons t tokens ih =>
    obtain ⟨here, later⟩ := List.forall_mem_cons.1 fits
    have first := price_feed d here
    have others := ih (d.feed true t) later
    simp only [Draft.feedAll, List.foldl_cons, List.length_cons] at others ⊢
    omega

theorem demand_finish (d : Draft) : demand (d.finish true).program ≤ d.price := by
  obtain ⟨out, groups⟩ := d
  unfold Draft.finish Draft.price
  simp only
  induction groups generalizing out with
  | nil => exact Nat.le_refl _
  | cons g outer ih =>
    have written := demand_writeOut g out.program
    have others := ih (g.writeOut true out.program)
    simp only [List.foldl_cons, List.map_cons, List.sum_cons]
    omega

end EditorSettings
