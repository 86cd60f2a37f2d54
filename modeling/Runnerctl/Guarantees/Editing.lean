import Runnerctl.Metatheory.Applying
import Runnerctl.Metatheory.Causes
import Runnerctl.Metatheory.Scripts

/-!
# Edits from two sides

A pool can be scaled, upgraded or added by a command, or by an edit of `config.toml` that is
applied.  A command drains its own pool, and `Apply` drains all of them.
-/

namespace Runnerctl

open Std Program

/-- The request edits the entry of one pool, or adds one: which pool, and the configuration
that it asks for. -/
inductive Edits (config : Config) : Request → String → Config → Prop where
  | scale {name : String} {replicas : Nat} :
      Edits config (.scale name replicas) name
        { config with pools := updateFirst name (fun p => { p with replicas }) config.pools }
  | upgrade {name image : String} {entry : Pool} :
      config.pool? name = some entry → entry.image ≠ image →
      Edits config (.upgrade name image) name
        { config with pools := updateFirst name (fun p => { p with image }) config.pools }
  | add {pool : Pool} :
      Edits config (.add pool) pool.name { config with pools := config.pools ++ [pool] }

/-- The pools are the same, but for the id of one that the request adds. -/
def SamePools (request : Request) (pools pools' : ExtTreeMap String PoolState) : Prop :=
  match request with
  | .add pool => ∃ p id, pools[pool.name]? = some p ∧
      pools' = pools.insert pool.name { p with id }
  | _ => pools' = pools

section Editing

variable {host : Host} {s t c : State} {w v : World} {name text : String} {next : Config}
  {request : Request}

/-! ## The edited configuration -/

theorem updateFirst_split (update : Pool → Pool) {pools : List Pool} {entry : Pool}
    (found : pools.find? (·.name == name) = some entry) :
    ∃ before after, pools = before ++ entry :: after ∧
      updateFirst name update pools = before ++ update entry :: after := by
  induction pools with
  | nil => simp at found
  | cons p rest inductionHypothesis =>
      by_cases same : p.name = name
      · rw [List.find?_cons_of_pos (by simpa using same)] at found
        cases found
        exact ⟨[], rest, rfl, by simp [updateFirst, same]⟩
      · rw [List.find?_cons_of_neg (by simpa using same)] at found
        obtain ⟨before, after, rfl, updated⟩ := inductionHypothesis found
        exact ⟨p :: before, after, rfl, by simp [updateFirst, same, updated]⟩

theorem Config.pool?_updateFirst {config : Config} {update : Pool → Pool} {entry : Pool}
    (known : config.pool? name = some entry) (same : ∀ p, (update p).name = p.name)
    {other : String} (different : other ≠ name) :
    ({ config with pools := updateFirst name update config.pools } : Config).pool? other =
      config.pool? other := by
  obtain ⟨before, after, split, updated⟩ := updateFirst_split update known
  have mine : entry.name = name := (Config.pool?_some known).2
  rw [Config.pool?, Config.pool?, updated, split]
  simp [List.find?_append, same, mine, Ne.symm different]

theorem Config.pool?_append_ne {config : Config} {pool : Pool} {other : String}
    (different : other ≠ pool.name) :
    ({ config with pools := config.pools ++ [pool] } : Config).pool? other =
      config.pool? other := by
  rw [Config.pool?, Config.pool?]
  simp [List.find?_append, Ne.symm different]

/-- The entries of an edited configuration, all but one of them unedited. -/
theorem State.Sound.edited (sound : s.Sound)
    (undeleted : ∀ (name : String) (p : PoolState), s.pools[name]? = some p → p.deleting = false)
    {update : Pool → Pool} (names : ∀ p, (update p).name = p.name) {entry : Pool} {p : PoolState}
    (known : s.config.pool? name = some entry) (found : s.pools[name]? = some p)
    (scope : entry.apiScope = (update entry).apiScope ∧ entry.auth = (update entry).auth)
    (n : Nat) :
    Applies host s n s.pools (updateFirst name update s.config.pools) n
      (if entry.sameRunner (update entry) then s.pools
        else s.pools.insert name { p with generation := p.generation + 1 }) := by
  obtain ⟨before, after, split, updated⟩ := updateFirst_split update known
  obtain ⟨-, rfl⟩ := Config.pool?_some known
  have distinct := sound.valid.distinct
  rw [split, List.map_append, List.map_cons, List.nodup_append, List.nodup_cons] at distinct
  have member {other : Pool} (there : other ∈ before ++ after) : other ∈ s.config.pools := by
    rw [split]
    simp only [List.mem_append, List.mem_cons] at there ⊢
    tauto
  have edited := (names entry).symm ▸ found
  rw [updated]
  refine Applies.append (.same fun other there => ?_) (.edit (by rw [names]; exact known)
    (by rw [names]; exact found) (undeleted _ p found) (.inl scope) ?_)
  · exact sound.unedited undeleted (member (List.mem_append_left _ there)) rfl
  · rw [names]
    refine .same fun other there => ?_
    refine sound.unedited undeleted (member (List.mem_append_right _ there)) ?_
    split
    · rfl
    · rw [TreeMap.get_insert, if_neg]
      exact fun same => distinct.2.1.1 (List.mem_map.mpr ⟨other, there, same.symm⟩)

/-! ## The drains -/

/-- How far a pool is behind depends on its entry, its state and the runs. -/
theorem State.behindAt_congr {other : String} (runs : c.runs = s.runs)
    (pools : c.pools[other]? = s.pools[other]?)
    (entry : c.config.pool? other = s.config.pool? other) :
    c.BehindAt other ↔ s.BehindAt other := by
  simp only [BehindAt, pools, entry, runsOf, excess, rank, runs]
  exact Iff.rfl

/-- A command that edits a pool drains only this one, and `Apply` all of them. -/
theorem drains_agree (sound : c.Sound) (marked : c.markRetiring name = some t) {t' : State}
    (applied : c.pools.keys.foldlM State.markRetiring c = some t')
    (same : ∀ other, other ≠ name → (c.BehindAt other ↔ s.BehindAt other)) :
    t'.config = t.config ∧ t'.revision = t.revision ∧ t'.fileHash = t.fileHash ∧
      t'.pools = t.pools ∧
      (t'.runs = t.runs ↔ ∀ other, other ≠ name → ¬ s.BehindAt other) := by
  have drained := State.drained_of_markRetiring marked
  have drained' := State.foldlM_markRetiring_drained applied
  have header := drained'.header.trans drained.header.symm
  refine ⟨congrArg Header.config header, congrArg Header.revision header,
    congrArg Header.fileHash header, drained'.pools.trans drained.pools.symm, ?_⟩
  refine (sound.foldlM_markRetiring_runs marked applied).trans ?_
  exact forall_congr' fun other => forall_congr' fun different => not_congr (same other different)

/-! ## Commands -/

/-- A command edited the entry of a pool. -/
theorem agrees_of_update (update : Pool → Pool) (names : ∀ p, (update p).name = p.name)
    (scopes : ∀ p, (update p).apiScope = p.apiScope) (profiles : ∀ p, (update p).auth = p.auth)
    {entry : Pool} {p : PoolState} (sound : s.Sound) (edited : c.Sound)
    (undeleted : ∀ (name : String) (p : PoolState), s.pools[name]? = some p → p.deleting = false)
    (known : s.config.pool? name = some entry) (found : s.pools[name]? = some p)
    (smooth : Smooth host v.asked) (memory : v.engine.state = s) (file : v.file = some text)
    (parsed : host.parseToml text = some
      { s.config with pools := updateFirst name update s.config.pools })
    (committed : Committed host
      { s with
        pools := if entry.sameRunner (update entry) then s.pools
          else s.pools.insert name { p with generation := p.generation + 1 } }
      { s.config with pools := updateFirst name update s.config.pools } c)
    (marked : c.markRetiring name = some t) :
    ∃ v', handleLocal (.apply text s.revision) host v = (.ok (.applied (s.revision + 1)), v') ∧
      v'.engine.state.config = t.config ∧ v'.engine.state.revision = t.revision ∧
      v'.engine.state.fileHash = t.fileHash ∧ v'.engine.state.pools = t.pools ∧
      (v'.engine.state.runs = t.runs ↔ ∀ other, other ≠ name → ¬ s.BehindAt other) := by
  have applies : Applies host s _ _ _ _ _ := sound.edited undeleted names known found
    ⟨(scopes entry).symm, (profiles entry).symm⟩ (v.asked + 1)
  have kept : ∀ q ∈ s.config.pools, ∃ new ∈ updateFirst name update s.config.pools,
      new.name = q.name := by
    intro q member
    refine List.mem_map.mp ?_
    rw [map_name_updateFirst _ names]
    exact List.mem_map_of_mem member
  obtain ⟨v', run, drained⟩ := handleLocal_apply_smooth smooth memory file parsed kept applies
    le_rfl sound.runs_profiles committed edited.toIndexed
  refine ⟨v', run, drains_agree edited marked drained fun other different => ?_⟩
  obtain ⟨-, printed, -, rfl⟩ := committed
  refine State.behindAt_congr rfl ?_ (Config.pool?_updateFirst known names different)
  change (if _ then _ else _)[other]? = _
  split
  · rfl
  · rw [TreeMap.get_insert, if_neg (Ne.symm different)]

/-- A command added a pool. -/
theorem agrees_of_add {pool : Pool} {k : Nat} (sound : s.Sound) (drawn : s.Drawn host v.asked)
    (fresh : Fresh host (v.asked + 2))
    (undeleted : ∀ (name : String) (p : PoolState), s.pools[name]? = some p → p.deleting = false)
    (missing : s.pools[pool.name]? = none)
    (smooth : Smooth host v.asked) (memory : v.engine.state = s) (file : v.file = some text)
    (parsed : host.parseToml text = some { s.config with pools := s.config.pools ++ [pool] })
    (committed : Committed host (s.setPool pool.name (.default (host.answers k).uuid))
      { s.config with pools := s.config.pools ++ [pool] } t) :
    ∃ v', handleLocal (.apply text s.revision) host v = (.ok (.applied (s.revision + 1)), v') ∧
      v'.engine.state.config = t.config ∧ v'.engine.state.revision = t.revision ∧
      v'.engine.state.fileHash = t.fileHash ∧
      SamePools (.add pool) t.pools v'.engine.state.pools ∧
      (v'.engine.state.runs = t.runs ↔ ∀ other, other ≠ pool.name → ¬ s.BehindAt other) := by
  obtain ⟨valid, printed, prints, rfl⟩ := committed
  have unknown : s.config.pool? pool.name = none := by
    by_contra known
    obtain ⟨entry, known⟩ := Option.ne_none_iff_exists'.mp known
    obtain ⟨there, same⟩ := Config.pool?_some known
    obtain ⟨p, found⟩ := (sound.entries pool.name).mpr ⟨entry, there, same⟩
    cases missing.symm.trans found
  have applies : Applies host s (v.asked + 1) s.pools (s.config.pools ++ [pool]) (v.asked + 2)
      (s.pools.insert pool.name (.default (host.answers (v.asked + 1)).uuid)) :=
    .append (.same fun other there => sound.unedited undeleted there rfl) (.add unknown .done)
  have profiles := sound.runs_profiles
  have kept : ∀ p ∈ s.config.pools, ∃ q ∈ s.config.pools ++ [pool], q.name = p.name :=
    fun p member => ⟨p, List.mem_append_left _ member, rfl⟩
  have commits : Commits host v.file v.asked (v.asked + 2) s (.apply text s.revision)
      ((s.setPool pool.name (.default (host.answers (v.asked + 1)).uuid)).commit
        { s.config with pools := s.config.pools ++ [pool] } (host.sha256 printed)) :=
    .apply file parsed kept (Nat.le_succ _) le_rfl applies profiles ⟨valid, printed, prints, rfl⟩
  obtain ⟨edited, -⟩ := commits.sound (Nat.le_add_right _ 2) sound drawn fresh
  obtain ⟨v', run, marked⟩ := handleLocal_apply_smooth smooth memory file parsed kept applies
    (Nat.le_succ _) profiles ⟨valid, printed, prints, rfl⟩ edited.toIndexed
  have drained := State.foldlM_markRetiring_drained marked
  have others {other : String} (different : other ≠ pool.name) :
      (s.pools.insert pool.name (.default (host.answers (v.asked + 1)).uuid))[other]? =
        s.pools[other]? := by
    rw [TreeMap.get_insert, if_neg (Ne.symm different)]
  have same {other : String} (different : other ≠ pool.name) :
      State.BehindAt _ other ↔ s.BehindAt other :=
    State.behindAt_congr
      (c := (s.setPool pool.name (.default (host.answers (v.asked + 1)).uuid)).commit
        { s.config with pools := s.config.pools ++ [pool] } (host.sha256 printed)) rfl
      (others different) (Config.pool?_append_ne different)
  refine ⟨v', run, drained.config, congrArg Header.revision drained.header,
    congrArg Header.fileHash drained.header, ⟨_, (host.answers (v.asked + 1)).uuid.text,
    TreeMap.get_insert_self _ _ _, ?_⟩, ?_⟩
  · rw [drained.pools]
    apply ExtTreeMap.ext_getElem?
    intro name
    simp only [State.commit, State.setPool, TreeMap.get_insert]
    split <;> rfl
  · refine (edited.toIndexed.foldlM_markRetiring_runs marked).trans ?_
    constructor
    · intro none other different behind
      have present := behind
      obtain ⟨p, -, -, found, -⟩ := present
      refine none other (TreeMap.mem_keys.mpr ⟨p, ?_⟩) ((same different).mpr behind)
      exact (others different).trans found
    · intro none other _ behind
      by_cases different : other = pool.name
      · -- nothing runs in a pool that was added just now
        subst different
        obtain ⟨p, _, r, found, -, member, -⟩ := behind
        obtain ⟨⟨id, there⟩, ofPool⟩ := (State.mem_runsOf _).mp member
        obtain ⟨name, q, found', owner⟩ := sound.owned there
        have older : name ≠ pool.name := by
          rintro rfl
          cases missing.symm.trans found'
        exact older (edited.ids ((others older).trans found') found (owner.trans ofPool))
      · exact none other different ((same different).mp behind)

/-- In an execution a command that edits or adds a pool was accepted.  Wherever memory is the
same, the file makes the same edit and no operation fails, `Apply` is accepted instead, and
leads to the same configuration and to the same pools; and to the same runs, if and only if no
drain was left undone in another pool. -/
theorem apply_agrees_with_command {first rest : List Moment} {m : Moment} {polled : Bool}
    {response : Response} (executed : Executed host w) (history : w.history = first ++ m :: rest)
    (restored : Restored first)
    (accepted : m.event = .handled polled request s (.ok response))
    (edits : Edits s.config request name next)
    (undeleted : ∀ (name : String) (p : PoolState), s.pools[name]? = some p → p.deleting = false)
    (drawn : s.Drawn host v.asked) (fresh : Fresh host (max w.asked (v.asked + 2)))
    (memory : v.engine.state = s) (file : v.file = some text)
    (parsed : host.parseToml text = some next) (smooth : Smooth host v.asked) :
    ∃ v', handleLocal (.apply text s.revision) host v = (.ok (.applied (s.revision + 1)), v') ∧
      v'.engine.state.config = m.state.config ∧ v'.engine.state.revision = m.state.revision ∧
      v'.engine.state.fileHash = m.state.fileHash ∧
      SamePools request m.state.pools v'.engine.state.pools ∧
      (v'.engine.state.runs = m.state.runs ↔ ∀ other, other ≠ name → ¬ s.BehindAt other) := by
  obtain ⟨w₀, w₁, new, storing, ready, served, asked, rfl, same, history', last⟩ :=
    ((storing_invariant host).caused executed first m rest history).served accepted
  have restored' : Restored w₀.history := (restored_append.mp (same ▸ restored)).1
  have fresh₁ : Fresh host w₁.asked := fresh.mono (asked.trans (le_max_left _ _))
  obtain ⟨sound, earlier⟩ := ready.sound restored' (fresh₁.mono served.asked)
  obtain ⟨inner, result, moments, -, outcome⟩ := served.outcome
  obtain rfl := List.singleton_inj.mp (List.append_inj' (history'.symm.trans moments) rfl).2
  cases accepted
  cases outcome with
  | accepted accepts _ _ _ =>
      rw [World.moment_state]
      generalize w₁.engine.state = t at accepts
      generalize state : w₀.engine.state = s at *
      cases edits with
      | @scale _ replicas =>
          cases accepts with
          | scale commits marked =>
              have edited := (commits.sound served.asked sound earlier fresh₁).1
              cases commits with
              | scale _ known found _ committed =>
                  refine agrees_of_update (fun p => { p with replicas }) (fun _ => rfl)
                    (fun _ => rfl) (fun _ => rfl) sound edited undeleted known found smooth memory
                    file parsed ?_ marked
                  rw [if_pos (by simp [Pool.sameRunner])]
                  exact committed
      | @upgrade _ image _ known different =>
          cases accepts with
          | upgrade commits marked =>
              have edited := (commits.sound served.asked sound earlier fresh₁).1
              cases commits with
              | upgrade _ known' found _ committed =>
                  cases known.symm.trans known'
                  refine agrees_of_update (fun p => { p with image }) (fun _ => rfl)
                    (fun _ => rfl) (fun _ => rfl) sound edited undeleted known found smooth memory
                    file parsed ?_ marked
                  rw [if_neg (by simp [Pool.sameRunner, different])]
                  exact committed
      | add =>
          cases accepts with
          | add commits =>
              cases commits with
              | add _ _ _ missing committed =>
                  exact agrees_of_add sound drawn (fresh.mono (le_max_right _ _)) undeleted
                    (TreeMap.contains_eq_false_iff.mp missing) smooth memory file parsed committed

/-! ## Samples -/

/-- Two pools, of which one can be scaled to one replica. -/
def Host.scalable : Host :=
  .scripted [.sample [.sample "a" 2, .sample "b" 1], .sample [.sample "a" 1, .sample "b" 1]]
    fun _ answers => answers

/-- No pool is being deleted. -/
def State.undeleted (s : State) : Bool := s.pools.toList.all fun entry => !entry.2.deleting

theorem State.not_deleting_of_undeleted (undeleted : s.undeleted = true) (name : String)
    (p : PoolState) (found : s.pools[name]? = some p) : p.deleting = false := by
  have entry := ExtTreeMap.mem_toList_iff_getElem?_eq_some.mpr found
  exact (Bool.not_eq_true' _).mp (List.all_eq_true.mp undeleted _ entry)

/-- The configuration with another number of replicas for a pool. -/
def Config.scaled (config : Config) (name : String) (replicas : Nat) : Config :=
  { config with pools := updateFirst name (fun p => { p with replicas }) config.pools }

/-- The configuration is edited by hand. -/
def World.rewrite (w : World) (text : String) : World :=
  World.log { w with file := some text } .edited

/-- A request is accepted in a world in which `holds` evaluates to true afterwards. -/
def World.serves (w : World) (host : Host) (request : Request) (holds : World → Bool) : Bool :=
  match serveRequest true request host w with
  | (.ok (), w') => w'.history.getLast?.any (fun m => match m.event with
      | .handled _ _ _ (.ok _) => true
      | _ => false) && holds w'
  | _ => false

theorem World.served {holds : World → Bool} (serves : w.serves host request holds = true) :
    ∃ w' first m response, serveRequest true request host w = (.ok (), w') ∧
      w'.history = first ++ [m] ∧
      m.event = .handled true request w.engine.state (.ok response) ∧
      m.state = w'.engine.state ∧ holds w' = true := by
  unfold World.serves at serves
  split at serves
  · next w' run =>
      obtain ⟨accepted, holding⟩ := Bool.and_eq_true_iff.mp serves
      obtain ⟨inner, result, moments, -, -⟩ :=
        ((serveRequest_meets host true request w).returned run).outcome
      rw [moments, List.getLast?_append, List.getLast?_singleton, Option.some_or, Option.any_some]
        at accepted
      cases result with
      | ok response => exact ⟨w', _, _, response, run, moments, rfl, rfl, holding⟩
      | error error => exact absurd accepted Bool.false_ne_true
  · exact absurd serves Bool.false_ne_true

/-- A pool of two runs is scaled to one replica, by the command or in the file. -/
theorem apply_agrees_with_command_sample : ∃ (w w' v : World) (id : String) (run run' : Run),
    serveRequest true (.scale "a" 1) .scalable w = (.ok (), w') ∧
      handleLocal (.apply "#" w.engine.state.revision) .scalable (w.rewrite "#") =
        (.ok (.applied (w.engine.state.revision + 1)), v) ∧
      v.engine.state.pools = w'.engine.state.pools ∧ v.engine.state.runs = w'.engine.state.runs ∧
      w.engine.state.runs[id]? = some run ∧ run.retiring = false ∧
      w'.engine.state.runs[id]? = some run' ∧ run'.retiring = true := by
  obtain ⟨w, reachable, holds⟩ := @Host.reaches .scalable "" .blank
    [.request (.start none true), .tick, .tick, .tick]
    (fun w => (w.engine.state.drained && w.engine.state.undeleted) &&
      (decide (w.asked + 2 ≤ 10 ^ 32) && decide (Host.scalable.parseToml "#" =
        some (w.engine.state.config.scaled "a" 1))) &&
      w.serves .scalable (.scale "a" 1) fun w' =>
        (decide (Restored w'.history) && decide (w'.asked ≤ 10 ^ 32)) &&
          w.engine.state.runs.keys.any fun id => w.engine.state.runs[id]?.any (!·.retiring) &&
            w'.engine.state.runs[id]?.any (·.retiring))
    (by decide +kernel)
  simp only [Bool.and_eq_true, decide_eq_true_eq] at holds
  obtain ⟨⟨⟨drained, undeleted⟩, small, parsed⟩, serves⟩ := holds
  obtain ⟨w', first, m, response, served, history, event, state, holds⟩ := World.served serves
  simp only [Bool.and_eq_true, decide_eq_true_eq, List.any_eq_true, Option.any_eq_true,
    Bool.not_eq_true'] at holds
  obtain ⟨⟨restored, small'⟩, id, -, ⟨run, found, kept⟩, run', found', drains⟩ := holds
  have fresh := fresh_of_scripted .scalable (fun _ => rfl) (max_le small' small)
  have served' := (serveRequest_meets .scalable true (.scale "a" 1) w).returned served
  have drawn := (reachable.ready.1.sound (restored_of_grows served'.grows restored)
    (fresh.mono ((Nat.le_add_right _ 2).trans (le_max_right _ _)))).2
  obtain ⟨v, run, -, -, -, pools, runs⟩ := apply_agrees_with_command
    (.reached (.request _ reachable served)) history (restored_append.mp (history ▸ restored)).1
    event .scale (State.not_deleting_of_undeleted undeleted) (v := w.rewrite "#") drawn fresh rfl
    rfl parsed (fun _ _ => rfl)
  rw [state] at pools runs
  exact ⟨w, w', v, id, _, run', served, run, pools,
    runs.mpr fun other _ behind => State.not_behind_of_drained drained ⟨other, behind⟩, found, kept,
    found', drains⟩

/-- Two pools, of which one is scaled after the other. -/
def Host.rescaled : Host :=
  .scripted [.sample [.sample "a" 1, .sample "b" 2], .sample [.sample "a" 1, .sample "b" 1],
    .sample [.sample "a" 2, .sample "b" 1]] fun _ answers => answers

/-- The edited configuration is applied, and `holds` evaluates to true afterwards. -/
def World.appliesTo (w : World) (host : Host) (text : String) (holds : World → Bool) : Bool :=
  match handleLocal (.apply text w.engine.state.revision) host (w.rewrite text) with
  | (.ok (.applied revision), v) => revision == w.engine.state.revision + 1 && holds v
  | _ => false

theorem World.applied {holds : World → Bool} (applies : w.appliesTo host text holds = true) :
    ∃ v, handleLocal (.apply text w.engine.state.revision) host (w.rewrite text) =
      (.ok (.applied (w.engine.state.revision + 1)), v) ∧ holds v = true := by
  unfold World.appliesTo at applies
  split at applies
  · next revision v run =>
      obtain ⟨rfl, holding⟩ := (Bool.and_eq_true_iff.mp applies).imp_left beq_iff_eq.mp
      exact ⟨v, run, holding⟩
  · exact absurd applies Bool.false_ne_true

/-- The process dies when `Scale` of a pool has written the file, but has drained nothing yet.
After the restart `Scale` of another pool leaves a run alone that `Apply` drains. -/
theorem drain_left_undone : ∃ (host : Host) (w w' v : World) (id : String) (run run' : Run),
    Reachable host w ∧ Restored w.history ∧ Fresh host (w.asked + 2) ∧
      Clean host w.file w.engine.state ∧ w.engine.state.undeleted = true ∧
      (∀ n, (host.answers n).succeeds = true) ∧
      host.parseToml "##" = some (w.engine.state.config.scaled "a" 2) ∧
      (∃ first m response, serveRequest true (.scale "a" 2) host w = (.ok (), w') ∧
        w'.history = first ++ [m] ∧
        m.event = .handled true (.scale "a" 2) w.engine.state (.ok response)) ∧
      handleLocal (.apply "##" w.engine.state.revision) host (w.rewrite "##") =
        (.ok (.applied (w.engine.state.revision + 1)), v) ∧
      w'.engine.state.runs[id]? = some run ∧ run.retiring = false ∧
      v.engine.state.runs[id]? = some run' ∧ run'.retiring = true := by
  obtain ⟨w₀, reachable, holds⟩ := @Host.reaches .rescaled "" .blank
    [.request (.start none true), .tick, .tick, .tick, .tick]
    (fun w₀ => (w₀.killed .rescaled (serveRequest true (.scale "b" 1)) 3).any fun (w : World) =>
      ((decide (Restored w.history) && decide (w.asked + 2 ≤ 10 ^ 32)) &&
        (w.file == some "#" && w.engine.state.fileHash == "#")) &&
      (w.engine.state.undeleted && decide (Host.rescaled.parseToml "##" =
        some (w.engine.state.config.scaled "a" 2))) &&
      w.serves .rescaled (.scale "a" 2) fun w' => w.appliesTo .rescaled "##" fun v =>
        w.engine.state.runs.keys.any fun id => w'.engine.state.runs[id]?.any (!·.retiring) &&
          v.engine.state.runs[id]?.any (·.retiring))
    (by decide +kernel)
  obtain ⟨w, killed, holds⟩ := (Option.any_eq_true ..).mp holds
  rw [Bool.and_eq_true] at holds
  obtain ⟨holds, serves⟩ := holds
  simp only [Bool.and_eq_true, decide_eq_true_eq, beq_iff_eq] at holds
  obtain ⟨⟨⟨restored, small⟩, file, fileHash⟩, undeleted, parsed⟩ := holds
  obtain ⟨w', first, m, response, served, history, event, state, applies⟩ := World.served serves
  obtain ⟨v, run, holds⟩ := World.applied applies
  simp only [Bool.and_eq_true, List.any_eq_true, Option.any_eq_true, Bool.not_eq_true'] at holds
  obtain ⟨id, -, ⟨kept, there, spared⟩, drained, there', drains⟩ := holds
  exact ⟨.rescaled, w, w', v, id, kept, drained,
    World.killed_reachable reachable (.request _) killed, restored,
    fresh_of_scripted _ (fun _ => rfl) small, ⟨"#", file, fileHash.symm⟩, undeleted, fun _ => rfl,
    parsed, ⟨first, m, response, served, history, event⟩, run, there, spared, there', drains⟩

end Editing

end Runnerctl
