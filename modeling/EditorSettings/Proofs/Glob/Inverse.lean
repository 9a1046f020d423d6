import EditorSettings.Proofs.Glob.Rereading

/-! # Compiling inverts rendering

The pattern of a canonical program compiles to that program.  By induction on the nodes, the pattern
of each is read as tokens that push it (`rereads_node_of_every`); a choice needs this for each of its
branches, and that arranging leaves its branches as they are.  With `canonical_compile` the canonical
programs are all that patterns compile to.
-/

namespace EditorSettings

/-! ## Nodes in a row -/

/-- The pattern of nodes in a row is read as tokens that append the nodes.  Nothing with a star in
front may follow, for the last node may be a run. -/
def Program.Rereads (p : Program) : Prop :=
  ∃ first : List Token,
    (∀ d : Draft, d.feedAll true first = { d with out := d.out.extend true p }) ∧
      ∀ s ts, s.head? ≠ some (.scalar '*') → Scans s ts → Scans (renderNodes p ++ s) (first ++ ts)

def Program.Opens (p : Program) : Prop := ∀ n ∈ p, n.render.head? = some (.scalar n.opensAs)

theorem opens_of_every {p : Program} {Q : List Program → Prop} (h : p.Every Atom.Canonical Q) :
    p.Opens :=
  fun n member => head?_render (h n member)

theorem head?_renderNodes {n : Node} {p : Program} (opens : n.render.head? = some (.scalar n.opensAs))
    (s : List Symbol) : (renderNodes (n :: p) ++ s).head? = some (.scalar n.opensAs) := by
  cases written : n.render with
  | nil =>
    rw [written] at opens
    cases opens
  | cons x more =>
    rw [written] at opens
    rw [renderNodes, written]
    exact opens

theorem rereads_nodes {p : Program} (varied : p.Varied) (opens : p.Opens)
    (nodes : ∀ n ∈ p, n.Rereads) : p.Rereads := by
  induction p with
  | nil => exact ⟨[], fun d => rfl, fun s ts _ h => h⟩
  | cons n p ih =>
    obtain ⟨_, opens_later⟩ := List.forall_mem_cons.1 opens
    obtain ⟨⟨first, pushes, scans⟩, later⟩ := List.forall_mem_cons.1 nodes
    obtain ⟨others, appends, scans'⟩ := ih varied.tail opens_later later
    refine ⟨first ++ others, fun d => ?_, ?_⟩
    · rw [Draft.feedAll_append, pushes, appends]
      rfl
    · intro s ts apart h
      rw [renderNodes, List.append_assoc, List.append_assoc]
      apply scans _ _ _ (scans' s ts apart h)
      intro crossing run star
      -- what comes next is a node of another kind, or what follows the program
      cases p with
      | nil => exact apart star
      | cons m p =>
        rw [head?_renderNodes (opens_later m List.mem_cons_self)] at star
        have alike : n.Alike m := run ▸ alike_of_opensAs (Symbol.scalar.inj (Option.some.inj star))
        exact (List.isChain_cons_cons.1 varied).1 alike

/-! ## Choices -/

theorem extend_empty {p : Program} (varied : p.Varied) :
    Builder.empty.extend true p = .ofProgram p :=
  Builder.extend_of_apart (p := []) (varied_iff.1 varied)

/-- Branches with commas between them are read as tokens that finish the branches one by one. -/
theorem rereads_branches {branches : List Program} (ne_nil : branches ≠ [])
    (varied : ∀ b ∈ branches, Program.Varied b) (each : ∀ b ∈ branches, Program.Rereads b) :
    ∃ first : List Token,
      (∀ before finished groups, (finished = [] → 2 ≤ branches.length) →
        Draft.feedAll true ⟨.empty, ⟨before, finished⟩ :: groups⟩ (first ++ [.closeGroup]) =
          ⟨before.push true (.choice (OpenGroup.arrange (finished.reverse ++ branches))), groups⟩) ∧
      ∀ s ts, s.head? ≠ some (.scalar '*') → Scans s ts →
        Scans (List.intercalate [.scalar ','] (branches.map renderNodes) ++ s) (first ++ ts) := by
  induction branches with
  | nil => exact absurd rfl ne_nil
  | cons b branches ih =>
    obtain ⟨varied_b, varied_later⟩ := List.forall_mem_cons.1 varied
    obtain ⟨⟨first, appends, scans⟩, later⟩ := List.forall_mem_cons.1 each
    cases branches with
    -- the last branch is finished by the brace, and makes a choice with those before it
    | nil =>
      refine ⟨first, ?_, by rwa [List.map_singleton, List.intercalate_singleton]⟩
      intro before finished groups several
      have some_finished : finished ≠ [] := fun none => absurd (several none) (by simp)
      rw [Draft.feedAll_append, appends]
      simp [Draft.feedAll, Draft.feed, extend_empty varied_b, OpenGroup.close, some_finished,
        OpenGroup.branches]
    | cons c rest =>
      obtain ⟨others, closes, scans'⟩ := ih (List.cons_ne_nil c rest) varied_later later
      refine ⟨first ++ .comma :: others, ?_, ?_⟩
      · intro before finished groups _
        have next := closes before (b :: finished) groups fun none => absurd none (List.cons_ne_nil _ _)
        rw [List.append_assoc, Draft.feedAll_append, appends]
        simp only [extend_empty varied_b, List.cons_append, Draft.feedAll, List.foldl_cons, Draft.feed,
          Builder.program_ofProgram] at next ⊢
        rw [next, List.reverse_cons, List.append_assoc]
        rfl
      · intro s ts apart h
        have comma : Scans (.scalar ',' :: (List.intercalate [.scalar ','] ((c :: rest).map renderNodes) ++ s))
            (.comma :: (others ++ ts)) := by
          apply scans_symbol (by decide) _ (scans' s ts apart h)
          intro rest _
          simp [Token.readToken]
        have whole := scans _ _ (by simp) comma
        simpa [List.intercalate_cons_cons] using whole

/-- Arranging leaves canonical branches as they are, also after the only one was written twice. -/
theorem arrange_atLeastTwo {branches : List Program} (h : CanonicalBranches branches) :
    OpenGroup.arrange (atLeastTwo branches) = branches := by
  have sorted {bs : List Program} (empty_first : ∀ b ∈ bs.tail, b ≠ []) :
      bs.filter (·.isEmpty) ++ bs.filter (!·.isEmpty) = bs := by
    cases bs with
    | nil => rfl
    | cons b rest =>
      have none_later : rest.filter (·.isEmpty) = [] := by
        apply List.filter_eq_nil_iff.2
        intro c member
        simpa using empty_first c member
      have all_later : rest.filter (!·.isEmpty) = rest := by
        apply List.filter_eq_self.2
        intro c member
        simpa using empty_first c member
      cases b <;> simp [none_later, all_later]
  unfold atLeastTwo
  split
  next only =>
    cases only <;> simp [OpenGroup.arrange, List.eraseDups_cons]
  · rw [OpenGroup.arrange, sorted h.empty_first, eraseDups_of_nodup h.nodup]

theorem atLeastTwo_map {α β : Type} (f : α → β) (xs : List α) :
    atLeastTwo (xs.map f) = (atLeastTwo xs).map f := by
  match xs with
  | [] | [_] | _ :: _ :: _ => rfl

theorem two_le_atLeastTwo {α : Type} {xs : List α} (h : xs ≠ []) : 2 ≤ (atLeastTwo xs).length := by
  match xs with
  | [] => exact absurd rfl h
  | [_] => exact Nat.le_refl 2
  | _ :: _ :: _ => simp [atLeastTwo]

theorem head?_branches {branches : List Program} (opens : ∀ b ∈ branches, Program.Opens b)
    (s : List Symbol) {c : Char}
    (h : (List.intercalate [.scalar ','] (branches.map renderNodes) ++ .scalar '}' :: s).head? =
      some (.scalar c)) : c.isDigit = false ∧ c ≠ '-' := by
  have node {n : Node} {p : Program} (t : List Symbol) (opens : Program.Opens (n :: p))
      (h : (renderNodes (n :: p) ++ t).head? = some (.scalar c)) : c.isDigit = false ∧ c ≠ '-' := by
    rw [head?_renderNodes (opens n List.mem_cons_self)] at h
    cases h
    exact opensAs_not_digit n
  match branches with
  | [] | [[]] | [] :: _ :: _ =>
    cases h
    exact ⟨rfl, by decide⟩
  | [n :: p] =>
    rw [List.map_singleton, List.intercalate_singleton] at h
    exact node _ (opens _ List.mem_cons_self) h
  | (n :: p) :: b :: rest =>
    rw [List.map_cons, List.map_cons, List.intercalate_cons_cons, List.append_assoc, List.append_assoc] at h
    exact node _ (opens _ List.mem_cons_self) h

theorem rereads_choice {branches : List Program} (h : CanonicalBranches branches)
    (opens : ∀ b ∈ branches, Program.Opens b) (each : ∀ b ∈ branches, Program.Rereads b) :
    Node.Rereads (.choice branches) := by
  have members {b : Program} : b ∈ atLeastTwo branches ↔ b ∈ branches := mem_atLeastTwo
  have length := two_le_atLeastTwo h.ne_nil
  have ne_nil : atLeastTwo branches ≠ [] := by
    intro none
    rw [none] at length
    cases length
  obtain ⟨first, closes, scans⟩ := rereads_branches ne_nil
    (fun b member => h.varied b (members.1 member)) (fun b member => each b (members.1 member))
  refine ⟨.openGroup :: (first ++ [.closeGroup]), ?_, ?_⟩
  · intro d
    have closed := closes d.out [] d.groups fun _ => length
    rw [List.reverse_nil, List.nil_append, arrange_atLeastTwo h] at closed
    exact closed
  · intro s ts _ scanned
    have brace : Scans (.scalar '}' :: s) (.closeGroup :: ts) := by
      apply scans_symbol (by decide) _ scanned
      intro rest _
      simp [Token.readToken]
    have inner := scans _ _ (by simp) brace
    have whole : Scans (.scalar '{' :: (List.intercalate [.scalar ','] ((atLeastTwo branches).map renderNodes) ++
        .scalar '}' :: s)) (.openGroup :: (first ++ .closeGroup :: ts)) := by
      apply scans_symbol (by decide) _ inner
      intro rest same
      have group : Token.readBounds rest = none := by
        apply readBounds_of_head
        intro c start
        exact head?_branches (fun b member => opens b (members.1 member)) s (same _ start)
      simp [Token.readToken, group]
    rw [Node.render, renderBranches_eq_map, atLeastTwo_map]
    simpa using whole

theorem rereads_node_of_every {n : Node}
    (h : n.Every (fun a => a.Canonical ∧ a.Writable) CanonicalBranches) : n.Rereads := by
  induction h with
  | atom h => exact rereads_atom h.1 h.2
  | run =>
    rename_i crossing
    exact rereads_run crossing
  | choice here inside ih =>
    rename_i branches
    have opens (b : Program) (member : b ∈ branches) : b.Opens := by
      have nodes : b.Every Atom.Canonical CanonicalBranches :=
        fun n hn => (inside b member n hn).imp (fun _ => And.left) fun _ => id
      exact opens_of_every nodes
    apply rereads_choice here opens
    exact fun b member => rereads_nodes (here.varied b member) (opens b member) (ih b member)

/-! ## Programs -/

theorem writtenOf_of_appends {rest : Program} {tokens : List Token}
    (varied : Program.Varied (.boundary :: rest))
    (appends : ∀ d : Draft, d.feedAll true tokens = { d with out := d.out.extend true rest }) :
    writtenOf true (.boundary :: tokens) = .boundary :: rest := by
  have apart : Program.Apart true ([.boundary] ++ rest) := varied_iff.1 varied
  have fed : Draft.start.feedAll true (.boundary :: tokens) = ⟨.ofProgram ([.boundary] ++ rest), []⟩ := by
    have later := appends (Draft.start.feed true .boundary)
    rw [← Builder.extend_of_apart apart]
    exact later
  rw [writtenOf, fed]
  exact Builder.program_ofProgram _

theorem withLastComponent_of_ends {p : Program} (ends : p.getLast? ≠ some .boundary) :
    withLastComponent p = p :=
  if_neg ends

theorem compile_of_scans {pattern : List Symbol} {rest : Program} {tokens : List Token}
    (free : .scalar '/' ∉ pattern) (scanned : Scans pattern tokens)
    (written : writtenOf true (.boundary :: tokens) = .boundary :: rest)
    (ends : (.boundary :: rest : Program).getLast? ≠ some .boundary) :
    compile true pattern = .ok (.boundary :: rest) := by
  have compiled := compile_of_tokens scanned true
  rw [written, endedAs, if_neg free, withLastComponent_of_ends ends] at compiled
  exact compiled

/-- The slash that is written for the root is a second boundary, and merged with the first. -/
theorem compile_slash_renderNodes {rest : Program} {tokens : List Token}
    (scanned : Scans (renderNodes rest) tokens)
    (written : writtenOf true (.boundary :: tokens) = .boundary :: rest)
    (ends : (.atom .root :: rest : Program).getLast? ≠ some .boundary) :
    compile true (.scalar '/' :: renderNodes rest) = .ok (.atom .root :: rest) := by
  have written_twice : writtenOf true (.boundary :: .boundary :: tokens) = .boundary :: rest := by
    rw [← written]
    simp only [writtenOf, Draft.feedAll, List.foldl_cons, Draft.feed_boundary_feed_boundary]
  have compiled := compile_of_tokens (scans_slash scanned) true
  rw [written_twice, endedAs, if_pos List.mem_cons_self] at compiled
  rw [compiled]
  exact congrArg Except.ok (withLastComponent_of_ends ends)

theorem compile_render {p : Program} (canonical : p.Canonical) (writable : p.Writable) :
    compile true (render p) = .ok p := by
  obtain ⟨⟨starts, nodes, unrooted, ends, varied⟩, after_root⟩ := canonical
  cases p with
  | nil => rcases starts with none | none <;> cases none
  | cons first rest =>
    have writable_rest := (every_cons.1 writable).2
    have rereads : Program.Rereads rest := by
      apply rereads_nodes varied.tail (opens_of_every nodes)
      intro n member
      exact rereads_node_of_every
        (((nodes n member).and (writable_rest n member)).imp (fun _ => id) fun _ => And.left)
    obtain ⟨tokens, appends, scans⟩ := rereads
    have scanned : Scans (renderNodes rest) tokens := by
      have whole := scans [] [] nofun scans_nil
      rwa [List.append_nil, List.append_nil] at whole
    obtain boundary | root := starts
    · cases boundary
      -- the boundary in front is not written, and there is no other slash
      have free : .scalar '/' ∉ renderNodes rest := by
        have inside := (unrooted rfl).2
        exact free_renderNodes (nodes.and inside)
      exact compile_of_scans free scanned (writtenOf_of_appends varied appends) ends
    · cases root
      -- while it is compiled the program has a boundary where the root will be
      have varied_boundary : Program.Varied (.boundary :: rest) := by
        apply varied.tail.cons
        intro n next
        apply not_alike_iff.2
        apply Builder.merge?_boundary
        intro same
        exact after_root rfl (same ▸ next)
      have rendered : render (.atom .root :: rest) = .scalar '/' :: renderNodes rest := by
        simp [render, renderNodes, Node.render, Atom.render]
      rw [rendered]
      exact compile_slash_renderNodes scanned (writtenOf_of_appends varied_boundary appends) ends

def rootThenBoundary : Program := [.atom .root, .boundary, .symbol (.scalar 'a')]

theorem rootThenBoundary_not_compiled :
    rootThenBoundary.Regular ∧ rootThenBoundary.Writable ∧
      (∀ pattern, compile true pattern ≠ .ok rootThenBoundary) ∧
      compile true (render rootThenBoundary) = .ok [.atom .root, .symbol (.scalar 'a')] := by
  refine ⟨⟨.inr rfl, ?_, nofun, nofun, ?_⟩, ?_, ?_, ?_⟩
  · simp [rootThenBoundary, Node.boundary, Node.symbol, Atom.Canonical]
  · simp [rootThenBoundary, Node.boundary, Node.symbol, Program.Varied, Node.Alike]
  · simp [rootThenBoundary, Node.boundary, Node.symbol, Program.Writable, Atom.Writable]
  · intro pattern compiled
    have canonical := (canonical_compile compiled).1
    exact canonical.after_root rfl rfl
  · decide +kernel

/-- What patterns compile to are the canonical programs, anchored if and only if there is a slash, and
each of them is what its own pattern compiles to. -/
theorem compile_inverts_render :
    (∀ pattern p, compile true pattern = .ok p →
      p.Canonical ∧ p.Writable ∧ (p.head? = some (.atom .root) ↔ .scalar '/' ∈ pattern)) ∧
    (∀ p : Program, p.Canonical → p.Writable → compile true (render p) = .ok p) ∧
    ∀ p : Program, (∃ pattern, compile true pattern = .ok p) ↔ p.Canonical ∧ p.Writable := by
  refine ⟨fun pattern p => canonical_compile, fun p => compile_render, fun p => ?_⟩
  constructor
  · rintro ⟨pattern, compiled⟩
    obtain ⟨canonical, writable, _⟩ := canonical_compile compiled
    exact ⟨canonical, writable⟩
  · rintro ⟨canonical, writable⟩
    exact ⟨render p, compile_render canonical writable⟩

def mixture : Program :=
  [.atom .root, .symbol (.scalar 'a'), .boundary,
    .choice [[], [.atom (.charClass (CodeSet.ofList [98, 99]) true), .run true],
      [.atom (.number (-1) 10)]],
    .atom .anyChar]

theorem compile_inverts_render_mixture :
    compile true (Symbol.ofText "a/{,[bc]**,{-1..10}}?".toList) = .ok mixture ∧
      mixture.Canonical ∧ mixture.Writable ∧ compile true (render mixture) = .ok mixture := by
  have compiled : compile true (Symbol.ofText "a/{,[bc]**,{-1..10}}?".toList) = .ok mixture := by
    decide +kernel
  have canonical : mixture.Canonical := by
    have rooted : mixture.head? = some (.atom .root) := rfl
    have unbounded : mixture.head? ≠ some .boundary ∧ mixture.getLast? ≠ some .boundary ∧
        mixture.tail.head? ≠ some .boundary := by
      decide
    refine ⟨⟨.inr rooted, ?_, fun first => absurd first unbounded.1, unbounded.2.1, ?_⟩,
      fun _ => unbounded.2.2⟩
    · have branches : CanonicalBranches [[],
          [.atom (.charClass (CodeSet.ofList [98, 99]) true), .run true],
          [.atom (.number (-1) 10)]] := by
        refine ⟨by simp, by decide, by simp, ?_⟩
        simp [Program.Varied, Node.Alike]
      have letters : 47 ∉ CodeSet.ofList [98, 99] ∧ 2 ≤ (CodeSet.ofList [98, 99]).size := by
        decide
      simp [mixture, every_choice, Node.symbol, Node.boundary, Atom.Canonical, branches, letters]
    · simp [mixture, Node.symbol, Node.boundary, Program.Varied, Node.Alike]
  have writable : mixture.Writable := by
    have letters : ∀ n ∈ CodeSet.ofList [98, 99], n < 0x110000 := by
      intro n member
      have letter := CodeSet.mem_ofList.1 member
      simp at letter
      omega
    have bounds : Short (-1) ∧ Short 10 := by
      unfold Short
      decide
    simpa [mixture, every_choice, Node.symbol, Node.boundary, Program.Writable, Atom.Writable] using
      ⟨letters, bounds⟩
  exact ⟨compiled, canonical, writable, compile_inverts_render.2.1 mixture canonical writable⟩

end EditorSettings
