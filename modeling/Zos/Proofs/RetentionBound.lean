import Mathlib.Algebra.BigOperators.Group.List.Basic
import Mathlib.Algebra.GroupWithZero.Nat
import Mathlib.Algebra.Order.BigOperators.Group.List
import Mathlib.Algebra.Order.Ring.Nat
import Mathlib.Data.List.Induction
import Zos.Backup.Retention
import Zos.Lib.Keyed

/-!
# Retention forgets snapshots of the roots only

A prune thins the snapshots of each path to the limit. The roots keep their paths, so that they
stay within it. The state is backed up from another directory in every run: the snapshots of one
run are a group of their own, of which the newest is always kept, and what is left of the state
is the sum over all runs there ever were.

The run lemma follows the repository group by group; `group_forget` is the only thing it has to
know about a prune.
-/

namespace Zos.Backup.Retention

variable {config : Config} (rules : KeepRules config)

/-! ## Groups -/

theorem KeepRules.keep_nil : rules.keep [] = [] := List.sublist_nil.mp (rules.sublist [])

@[simp]
theorem group_append (source : Source) (front back : List Snapshot) :
    group source (front ++ back) = group source front ++ group source back :=
  List.filter_append ..

theorem source_of_mem_group {source : Source} {repository : List Snapshot} {snapshot : Snapshot}
    (h : snapshot ∈ group source repository) : snapshot.source = source := by
  simpa using (List.mem_filter.mp h).2

theorem group_of_source {source : Source} {snapshots : List Snapshot}
    (h : ∀ snapshot ∈ snapshots, snapshot.source = source) : group source snapshots = snapshots :=
  List.filter_eq_self.mpr fun snapshot hmem => by simpa using h snapshot hmem

theorem group_eq_nil {source : Source} {snapshots : List Snapshot}
    (h : ∀ snapshot ∈ snapshots, snapshot.source ≠ source) : group source snapshots = [] :=
  List.filter_eq_nil_iff.mpr fun snapshot hmem => by simpa using h snapshot hmem

theorem source_of_mem_keep {source : Source} {repository : List Snapshot} {snapshot : Snapshot}
    (h : snapshot ∈ rules.keep (group source repository)) : snapshot.source = source :=
  source_of_mem_group ((rules.sublist _).subset h)

/-- Of the groups put together again, one is where it was. -/
theorem group_flatMap_keep (source : Source) (repository : List Snapshot) {sources : List Source}
    (hnodup : sources.Nodup) :
    group source (sources.flatMap fun s => rules.keep (group s repository)) =
      if source ∈ sources then rules.keep (group source repository) else [] := by
  induction sources with
  | nil => rfl
  | cons first rest ih =>
      obtain ⟨hfirst, hrest⟩ := List.nodup_cons.mp hnodup
      rw [List.flatMap_cons, group_append, ih hrest]
      by_cases heq : source = first
      · subst heq
        rw [if_neg hfirst, if_pos (List.mem_cons_self ..), List.append_nil]
        exact group_of_source fun _ hmem => source_of_mem_keep rules hmem
      · rw [group_eq_nil fun _ hmem h => heq (h.symm.trans (source_of_mem_keep rules hmem))]
        simp [heq]

theorem group_forget (source : Source) (repository : List Snapshot) :
    group source (forget rules repository) = rules.keep (group source repository) := by
  rw [forget, group_flatMap_keep rules source repository (List.nodup_dedup _)]
  split
  · rfl
  · rename_i hmem
    rw [List.mem_dedup, List.mem_map] at hmem
    rw [group_eq_nil fun snapshot hin heq => hmem ⟨snapshot, hin, heq⟩, rules.keep_nil]

theorem group_afterRun (source : Source) (repository : List Snapshot) (run : Run) :
    group source (afterRun rules repository run) =
      if (runBackup config run).2 then
        rules.keep (group source repository ++ group source (runBackup config run).1)
      else group source repository ++ group source (runBackup config run).1 := by
  simp only [afterRun]
  split
  · rw [group_forget, group_append]
  · rw [group_append]

/-! ## What a run writes -/

theorem source_backupRoots (run : Run) (roots : List Root) :
    ∀ snapshot ∈ (backupRoots config run roots).1, ∃ path, snapshot.source = .root path := by
  induction roots with
  | nil => simp [backupRoots]
  | cons root rest ih =>
      rw [backupRoots]
      split
      · intro snapshot hmem
        rcases List.mem_append.mp hmem with hmem | hmem
        · obtain ⟨time, -, rfl⟩ := List.mem_map.mp hmem
          exact ⟨root.path, rfl⟩
        · exact ih snapshot hmem
      · simp

theorem source_backupState (run : Run) :
    ∀ snapshot ∈ (backupState config run).1, snapshot.source = .staging run.id := by
  rw [backupState]
  split
  · intro snapshot hmem
    obtain ⟨time, -, rfl⟩ := List.mem_map.mp hmem
    rfl
  · simp

theorem source_runBackup (run : Run) : ∀ snapshot ∈ (runBackup config run).1,
    (∃ path, snapshot.source = .root path) ∨ snapshot.source = .staging run.id := by
  rw [runBackup]
  split
  · have hroots : ∀ snapshot ∈ (backupRoots config run (config.roots.filter run.rootReady)).1,
        ∃ path, snapshot.source = .root path := source_backupRoots run _
    split
    · rename_i heq
      exact fun snapshot hmem => .inl (hroots snapshot (heq ▸ hmem))
    · rename_i heq
      intro snapshot hmem
      rcases List.mem_append.mp hmem with hmem | hmem
      · exact .inl (hroots snapshot (heq ▸ hmem))
      · exact .inr (source_backupState run snapshot hmem)
  · simp

theorem group_runBackup (run : Run) :
    group (.staging run.id) (runBackup config run).1 = (runBackup config run).1.filter ofState := by
  refine List.filter_congr fun snapshot hmem => ?_
  rcases source_runBackup run snapshot hmem with ⟨path, hsource⟩ | hsource <;>
    simp [ofState, hsource]

theorem group_runBackup_of_ne {run : Run} {id : String} (h : id ≠ run.id) :
    group (.staging id) (runBackup config run).1 = [] := by
  refine group_eq_nil fun snapshot hmem heq => ?_
  rcases source_runBackup run snapshot hmem with ⟨path, hsource⟩ | hsource
  · exact Source.noConfusion (hsource.symm.trans heq)
  · exact h (Source.staging.inj (heq.symm.trans hsource))

/-- The calls of a command that write a snapshot. -/
theorem length_runResticWithRetry (reply : Nat → Reply) (attempt retries : Nat) :
    (runResticWithRetry reply attempt retries).1.length =
      (List.range' attempt (retries + 1)).countP fun n => (reply n).written.isSome ∧
        ∀ earlier < n, attempt ≤ earlier → (reply earlier).code ≠ 0 := by
  have hlength (n : Nat) : (reply n).written.toList.length =
      if (reply n).written.isSome then 1 else 0 := by
    cases (reply n).written <;> rfl
  have hfirst (n : Nat) : decide ((reply n).written.isSome = true ∧
      ∀ earlier < n, n ≤ earlier → (reply earlier).code ≠ 0) = (reply n).written.isSome := by
    rw [Bool.eq_iff_iff, decide_eq_true_eq, and_iff_left]
    exact fun earlier hlt hle => absurd hle (Nat.not_le_of_lt hlt)
  induction retries generalizing attempt with
  | zero =>
      rw [List.range'_one, List.countP_singleton, hfirst, runResticWithRetry, hlength]
  | succ retries ih =>
      rw [List.range'_succ, List.countP_cons, hfirst, ← hlength, runResticWithRetry]
      split
      · next hcode =>
        -- a success ends the calls
        rw [List.countP_eq_zero.mpr fun n hn => ?_, Nat.zero_add]
        have hle := (List.mem_range'_1.mp hn).1
        rw [decide_eq_true_eq]
        exact fun h => h.2 attempt hle (Nat.le_refl _) hcode
      · next hcode =>
        rw [List.length_append, ih, Nat.add_comm]
        refine congrArg (· + _) (List.countP_congr fun n _ => ?_)
        rw [decide_eq_true_eq, decide_eq_true_eq]
        refine and_congr_right fun _ => forall₂_congr fun earlier _ =>
          ⟨fun h hle => ?_, fun h hle => h (Nat.le_of_succ_le hle)⟩
        rcases Nat.eq_or_lt_of_le hle with rfl | hlt
        · exact hcode
        · exact h hlt

theorem isSome_backupRoots (config : Config) (run : Run) (roots : List Root) :
    (backupRoots config run roots).2.isSome = roots.all fun root => run.leased (.root root) := by
  induction roots with
  | nil => rfl
  | cons root rest ih =>
      rw [backupRoots, List.all_cons, ← ih]
      cases run.leased (.root root) <;> simp

theorem length_runBackup (run : Run) :
    ((runBackup config run).1.filter ofState).length = run.statesSaved config := by
  have hroots : (backupRoots config run (config.roots.filter run.rootReady)).1.filter ofState =
      [] := List.filter_eq_nil_iff.mpr fun snapshot hmem => by
    obtain ⟨path, hsource⟩ := source_backupRoots run _ snapshot hmem
    simp [ofState, hsource]
  have hstate : (backupState config run).1.filter ofState = (backupState config run).1 :=
    List.filter_eq_self.mpr fun snapshot hmem => by
      simp [ofState, source_backupState run snapshot hmem]
  rw [Run.statesSaved, Run.reachesState, ← isSome_backupRoots config, runBackup]
  cases run.leased .start && run.targetReady && run.staged with
  | false => rfl
  | true =>
      generalize backupRoots config run (config.roots.filter run.rootReady) = written at hroots ⊢
      obtain ⟨snapshots, failed⟩ := written
      cases failed with
      | none => simpa using hroots
      | some failed =>
          simp only [if_true, List.filter_append, hroots, List.nil_append, hstate]
          rw [backupState]
          cases run.leased .state with
          | false => rfl
          | true =>
              simp only [if_true, List.length_map, length_runResticWithRetry,
                List.range_eq_range', Option.isSome_some, Bool.and_self]
              simp

/-! ## What is left of the state -/

theorem repositoryAfter_concat (runs : List Run) (run : Run) :
    repositoryAfter rules (runs ++ [run]) = afterRun rules (repositoryAfter rules runs) run :=
  List.foldl_concat ..

/-- A run that has not taken place has left nothing. -/
theorem group_of_new {runs : List Run} {id : String} (h : id ∉ runs.map Run.id) :
    group (.staging id) (repositoryAfter rules runs) = [] := by
  induction runs using List.reverseRecOn with
  | nil => rfl
  | append_singleton runs run ih =>
      rw [List.map_append, List.mem_append, not_or] at h
      have hne : id ≠ run.id := by simpa using h.2
      rw [repositoryAfter_concat, group_afterRun, ih h.1, group_runBackup_of_ne hne]
      simp [rules.keep_nil]

/-- The group of a run is what the run has written, thinned by every prune since. -/
theorem group_of_run {P : List Snapshot → Prop} (hkeep : ∀ group, P group → P (rules.keep group))
    {runs : List Run} (h : (runs.map Run.id).Nodup) {run : Run} (hrun : run ∈ runs)
    (hwritten : P ((runBackup config run).1.filter ofState)) :
    P (group (.staging run.id) (repositoryAfter rules runs)) := by
  induction runs using List.reverseRecOn with
  | nil => cases hrun
  | append_singleton runs last ih =>
      obtain ⟨hruns, hold⟩ := Zos.Lib.nodup_map_concat.mp h
      have hgroup : P (group (.staging run.id) (repositoryAfter rules runs) ++
          group (.staging run.id) (runBackup config last).1) := by
        rcases List.mem_append.mp hrun with hmem | hmem
        · rw [group_runBackup_of_ne (hold run hmem), List.append_nil]
          exact ih hruns hmem
        · obtain rfl := List.mem_singleton.mp hmem
          have hnew : run.id ∉ runs.map Run.id := fun hmem => by
            obtain ⟨other, hother, heq⟩ := List.mem_map.mp hmem
            exact hold other hother heq
          rwa [group_of_new rules hnew, List.nil_append, group_runBackup]
      rw [repositoryAfter_concat, group_afterRun]
      split
      · exact hkeep _ hgroup
      · exact hgroup

theorem sum_map_eq_count (id : String) (ids : List String) :
    (ids.map fun other => if other = id then 1 else 0).sum = ids.count id := by
  induction ids with
  | nil => rfl
  | cons other rest ih => simp [List.count_cons, ih, Nat.add_comm]

/-- Every state snapshot is in the group of one run. -/
theorem length_filter_ofState (repository : List Snapshot) {ids : List String} (hnodup : ids.Nodup)
    (hcover : ∀ id ∉ ids, group (.staging id) repository = []) :
    (repository.filter ofState).length =
      (ids.map fun id => (group (.staging id) repository).length).sum := by
  induction repository with
  | nil => simp [group]
  | cons snapshot rest ih =>
      have hrest : ∀ id ∉ ids, group (.staging id) rest = [] := fun id hid => by
        have hcons := hcover id hid
        rw [group, List.filter_cons] at hcons
        split at hcons
        · exact absurd hcons (List.cons_ne_nil _ _)
        · exact hcons
      cases hsource : snapshot.source with
      | root path =>
          simp only [group, List.filter_cons, ofState, hsource] at ih hrest ⊢
          simpa using ih hrest
      | staging run =>
          have hrun : run ∈ ids := by
            by_contra hnot
            have hnil := hcover run hnot
            simp [group, hsource] at hnil
          have hlength (id : String) : (group (.staging id) (snapshot :: rest)).length =
              (group (.staging id) rest).length + if id = run then 1 else 0 := by
            rw [group, List.filter_cons]
            by_cases heq : id = run
            · simp [hsource, heq, group]
            · simp [hsource, heq, group, Ne.symm heq]
          rw [List.filter_cons_of_pos (by simp [ofState, hsource]), List.length_cons, ih hrest]
          simp only [hlength]
          rw [List.sum_map_add]
          congr 1
          rw [sum_map_eq_count, List.count_eq_one_of_mem hnodup hrun]

theorem state_length {runs : List Run} (h : (runs.map Run.id).Nodup) :
    ((repositoryAfter rules runs).filter ofState).length =
      (runs.map fun run => (group (.staging run.id) (repositoryAfter rules runs)).length).sum := by
  rw [length_filter_ofState _ h fun id hid => group_of_new rules hid, List.map_map]
  rfl

theorem length_keep_pos {snapshots : List Snapshot} (h : snapshots ≠ []) :
    0 < (rules.keep snapshots).length :=
  List.length_pos_of_mem
    (rules.newest snapshots (snapshots.getLast h) (List.getLast?_eq_some_getLast h))

/-- No prune ever forgets all that one run has saved of the state. -/
theorem runs_le_state_length {runs : List Run} (h : (runs.map Run.id).Nodup)
    (hsaved : ∀ run ∈ runs, (runBackup config run).1.filter ofState ≠ []) :
    runs.length ≤ ((repositoryAfter rules runs).filter ofState).length := by
  rw [state_length rules h, ← List.length_map (fun run =>
    (group (.staging run.id) (repositoryAfter rules runs)).length)]
  refine List.length_le_sum_of_one_le _ fun n hn => ?_
  obtain ⟨run, hrun, rfl⟩ := List.mem_map.mp hn
  refine List.length_pos_iff.mpr (group_of_run rules (P := (· ≠ [])) ?_ h hrun (hsaved run hrun))
  exact fun group hne => List.length_pos_iff.mp (length_keep_pos rules hne)

/-! ## The bound -/

/-- Rules that keep as many as they may. -/
def newestKept (config : Config) : KeepRules config where
  keep group := group.drop (group.length - config.limit)
  sublist group := List.drop_sublist ..
  length_le group := by
    rw [List.length_drop]
    omega
  newest group snapshot h := by
    have hpos : 0 < config.limit := Nat.add_pos_left config.keepDaily_pos _
    obtain ⟨front, rfl⟩ := List.getLast?_eq_some_iff.mp h
    rw [List.drop_append_of_le_length (by rw [List.length_append, List.length_singleton]; omega)]
    simp

theorem length_newestKept (group : List Snapshot) :
    ((newestKept config).keep group).length = min group.length config.limit := by
  simp only [newestKept, List.length_drop]
  omega

/-- The runs up to one that prunes. -/
structure Pruned (config : Config) (runs : List Run) (run : Run) : Prop where
  ids : ((runs ++ [run]).map Run.id).Nodup
  prunes : (runBackup config run).2 = true

theorem Pruned.length_le {runs : List Run} {last : Run} (h : Pruned config runs last)
    (source : Source) :
    (group source (repositoryAfter rules (runs ++ [last]))).length ≤ config.limit := by
  rw [repositoryAfter_concat, group_afterRun, if_pos h.prunes]
  exact rules.length_le _

theorem Pruned.state_le {runs : List Run} {last : Run} (h : Pruned config runs last) :
    ((repositoryAfter rules (runs ++ [last])).filter ofState).length ≤
      ((runs ++ [last]).map fun run => min (run.statesSaved config) config.limit).sum := by
  rw [state_length rules h.ids]
  refine List.sum_le_sum fun run hrun => Nat.le_min.mpr ⟨?_, h.length_le rules _⟩
  refine group_of_run rules (P := fun group => group.length ≤ run.statesSaved config) ?_ h.ids hrun
    (Nat.le_of_eq (length_runBackup run))
  exact fun group hle => Nat.le_trans (rules.sublist group).length_le hle

theorem Pruned.state_eq {runs : List Run} {last : Run} (h : Pruned config runs last) :
    ((repositoryAfter (newestKept config) (runs ++ [last])).filter ofState).length =
      ((runs ++ [last]).map fun run => min (run.statesSaved config) config.limit).sum := by
  rw [state_length _ h.ids]
  refine congrArg List.sum (List.map_congr_left fun run hrun => ?_)
  have hmin := group_of_run (newestKept config) (P := fun group =>
    min group.length config.limit = min (run.statesSaved config) config.limit)
    (fun group heq => by rw [length_newestKept]; omega) h.ids hrun (by rw [length_runBackup])
  have hle := h.length_le (newestKept config) (.staging run.id)
  omega

theorem retention_bounds_iff (history : History config) :
    (∀ (rules : KeepRules config) front run back, history.runs = front ++ run :: back →
      run.kind = .weekly → Bounded config (repositoryAfter rules (front ++ [run]))) ↔
    ∀ front run back, history.runs = front ++ run :: back → run.kind = .weekly →
      ((front ++ [run]).map fun run => min (run.statesSaved config) config.limit).sum ≤
        config.limit := by
  have hpruned : ∀ front run back, history.runs = front ++ run :: back → run.kind = .weekly →
      Pruned config front run := by
    intro front run back hruns hweekly
    refine ⟨List.Nodup.sublist (List.Sublist.map _ ?_) history.ids,
      history.weekly run (by simp [hruns]) hweekly⟩
    rw [hruns]
    exact (List.Sublist.refl _).append (by simp)
  constructor
  · intro h front run back hruns hweekly
    rw [← (hpruned front run back hruns hweekly).state_eq]
    exact (h (newestKept config) front run back hruns hweekly).state
  · intro h rules front run back hruns hweekly
    have hprune := hpruned front run back hruns hweekly
    exact ⟨Nat.le_trans (hprune.state_le rules) (h front run back hruns hweekly),
      fun root _ => hprune.length_le rules _⟩

/-! ## Three weekly runs -/

def twoKept : Config := ⟨[], 2, 1, 1, by decide, by decide⟩

/-- The newest two of each path. -/
def newestTwo : KeepRules twoKept := newestKept twoKept

def weeklyRun (id : String) (time : Nat) : Run where
  id := id
  kind := .weekly
  leased _ := true
  targetReady := true
  rootReady _ := true
  staged := true
  backupRoot _ _ := ⟨0, ["r"], none⟩
  backupState _ := ⟨0, [id], some time⟩
  visible := true
  checked := true
  pruned := true

def threeWeeks : History twoKept where
  runs := [weeklyRun "a" 0, weeklyRun "b" 7, weeklyRun "c" 14]
  ids := by decide
  weekly := by decide

theorem three_states_left :
    3 ≤ ((repositoryAfter newestTwo threeWeeks.runs).filter ofState).length :=
  runs_le_state_length newestTwo threeWeeks.ids (by decide)

/-- After the third run there is a third state snapshot. -/
theorem third_state_is_kept :
    ¬ ∀ front run back, threeWeeks.runs = front ++ run :: back → run.kind = .weekly →
      Bounded twoKept (repositoryAfter newestTwo (front ++ [run])) := by
  intro h
  have hthird := (h [weeklyRun "a" 0, weeklyRun "b" 7] (weeklyRun "c" 14) [] rfl rfl).state
  exact absurd hthird (by decide)

end Zos.Backup.Retention
