import Colony.Defs.Push.Transactions

namespace Colony.Push

open Colony.Core Colony.Data

variable {K : Keys} {s s' : Store} {t t' u : Tx} {db db' : Db} {ws : List Write} {k : EventKey}

theorem foldl_write_queue (db : Db) (ws : List Write) (k : EventKey) :
    k ∈ (ws.foldl Db.write db).queue ↔ k ∈ db.queue ∨ .job k ∈ ws := by
  induction ws generalizing db with
  | nil => simp
  | cons w ws ih =>
    rw [List.foldl_cons, ih]
    cases w with
    | job k' => simp [Db.write, or_assoc]
    | _ => simp [Db.write]

theorem foldl_write_events_of_not_mem (h : ∀ row, .event k row ∉ ws) :
    (ws.foldl Db.write db).events.lookup k = db.events.lookup k := by
  induction ws generalizing db with
  | nil => rfl
  | cons w ws ih =>
    rw [List.foldl_cons, ih fun row hrow => h row (List.mem_cons_of_mem _ hrow)]
    cases w with
    | event k' row =>
      have hne : k ≠ k' := fun heq => h row (heq ▸ List.mem_cons_self)
      rw [Db.write, Dict.lookup_insert_if, if_neg hne]
    | _ => rfl

theorem foldl_write_events_of_mem {row : EventRow} (h : .event k row ∈ ws) :
    (ws.foldl Db.write db).events.lookup k = (ws.foldl Db.write db').events.lookup k := by
  induction ws generalizing db db' row with
  | nil => cases h
  | cons w ws ih =>
    by_cases hlater : ∃ row', .event k row' ∈ ws
    · obtain ⟨row', hlater⟩ := hlater
      exact ih hlater
    · rcases List.mem_cons.1 h with rfl | h
      · have hnone : ∀ row', .event k row' ∉ ws := fun row' h => hlater ⟨row', h⟩
        rw [List.foldl_cons, List.foldl_cons, foldl_write_events_of_not_mem hnone,
          foldl_write_events_of_not_mem hnone]
        simp [Db.write]
      · exact absurd ⟨row, h⟩ hlater

theorem foldl_write_leases_of_not_mem {a : Address} (h : ∀ l, .lease a l ∉ ws) :
    (ws.foldl Db.write db).leases.lookup a = db.leases.lookup a := by
  induction ws generalizing db with
  | nil => rfl
  | cons w ws ih =>
    rw [List.foldl_cons, ih fun l hl => h l (List.mem_cons_of_mem _ hl)]
    cases w with
    | lease a' l =>
      have hne : a ≠ a' := fun heq => h l (heq ▸ List.mem_cons_self)
      rw [Db.write, Dict.lookup_insert_if, if_neg hne]
    | _ => rfl

theorem foldl_write_leases_eq (h : ∀ a l, .lease a l ∉ ws) :
    (ws.foldl Db.write db).leases = db.leases := by
  induction ws generalizing db with
  | nil => rfl
  | cons w ws ih =>
    rw [List.foldl_cons, ih fun a l hl => h a l (List.mem_cons_of_mem _ hl)]
    cases w with
    | lease a l => exact absurd List.mem_cons_self (h a l)
    | _ => rfl

def Stmt.writes (s : Store) (t : Tx) : Stmt → List Write
  | .expireLeases community author =>
    ((view s t).expired community author t.now).map fun e => .lease e.1 e.2.deactivate
  | .leaseEvent a id => leaseEventWrites (view s t) a id t.now
  | .upsertLease a l | .replaceLease a l => [.lease a l]
  | .backfill community => ((view s t).backfillJobs community t.now).map .job
  | .insertEvent key row => [.event key row]
  | .enqueueMatchJob key =>
    (if (view s t).gateOpen key.1 t.now ∧ key ∉ (view s t).queue then [key] else []).map .job
  | .insertWakes community ids =>
    (newWakes community t.now (view s t).outbox t.resolved ids).map .wake
  | _ => []

theorem exec_eq_some {g : Stmt} (h : exec s t g = some t') : t'.now = t.now ∧
    t'.request = t.request ∧ t'.writes = t.writes ++ g.writes s t := by
  cases g <;> simp only [exec, Option.ite_none_right_eq_some, Option.ite_none_left_eq_some,
    Option.some.injEq] at h
  case sourceEventFree | winsAddress | quota | endpointFree =>
    obtain ⟨-, rfl⟩ := h
    exact ⟨rfl, rfl, (List.append_nil _).symm⟩
  case leaseEvent | upsertLease | replaceLease | insertEvent | insertWakes =>
    obtain ⟨-, rfl⟩ := h
    exact ⟨rfl, rfl, rfl⟩
  case expireLeases | backfill | enqueueMatchJob =>
    subst h
    exact ⟨rfl, rfl, rfl⟩
  case lock | gate | lockLeases =>
    subst h
    exact ⟨rfl, rfl, (List.append_nil _).symm⟩

def Stmt.decides : Stmt → Bool
  | .backfill _ | .enqueueMatchJob _ => true
  | _ => false

def Stmt.leases : Stmt → Bool
  | .expireLeases _ _ | .upsertLease _ _ | .replaceLease _ _ => true
  | _ => false

structure Does (s : Store) (t : Tx) (g : Stmt) (t' : Tx) (ws : List Write) : Prop where
  now : t'.now = t.now
  request : t'.request = t.request
  writes : t'.writes = t.writes ++ ws
  gate : t'.gate = match g with
    | .gate _ _ => s.history.length
    | _ => t.gate
  read : t'.read = if g.decides then view s t else t.read
  readAt : t'.readAt = if g.decides then s.states.length - 1 else t.readAt
  leases : g.leases = false → ∀ a l, .lease a l ∉ ws
  upserts : ∀ a l, g = .upsertLease a l ∨ g = .replaceLease a l → ws = [.lease a l]
  inserts : ∀ k row, g = .insertEvent k row → ws = [.event k row]
  -- No event of an eligible kind is written over.
  events : ∀ k row, .event k row ∈ ws → ∀ old, (view s t).events.lookup k = some old →
    old.kind ∉ eligibleKinds
  jobs : ∀ k, .job k ∈ ws ↔
    match g with
    | .backfill community => k ∈ (view s t).backfillJobs community t.now
    | .enqueueMatchJob key => k = key ∧ (view s t).gateOpen key.1 t.now ∧ key ∉ (view s t).queue
    | _ => False

theorem does_of_exec {g : Stmt} (h : exec s t g = some t') : Does s t g t' (g.writes s t) := by
  obtain ⟨hnow, hrequest, hwrites⟩ := exec_eq_some h
  refine ⟨hnow, hrequest, hwrites, ?_, ?_, ?_, ?_, ?_, ?_, ?_, ?_⟩
  · cases g <;> simp only [exec, Option.ite_none_right_eq_some, Option.ite_none_left_eq_some,
      Option.some.injEq] at h <;> first | (subst h; rfl) | (obtain ⟨-, rfl⟩ := h; rfl)
  · cases g <;> simp only [exec, Option.ite_none_right_eq_some, Option.ite_none_left_eq_some,
      Option.some.injEq] at h <;> first | (subst h; rfl) | (obtain ⟨-, rfl⟩ := h; rfl)
  · cases g <;> simp only [exec, Option.ite_none_right_eq_some, Option.ite_none_left_eq_some,
      Option.some.injEq] at h <;> first | (subst h; rfl) | (obtain ⟨-, rfl⟩ := h; rfl)
  · intro hg a l
    cases g <;> simp [Stmt.leases, Stmt.writes, leaseEventWrites] at hg ⊢
  · rintro a l (rfl | rfl) <;> rfl
  · rintro k row rfl
    rfl
  · intro k row hmem old hold
    cases g <;> simp only [Stmt.writes, List.mem_map, List.mem_singleton, List.not_mem_nil,
      reduceCtorEq, and_false, exists_false] at hmem
    case leaseEvent a id =>
      simp only [exec, Option.ite_none_left_eq_some] at h
      simp only [leaseEventWrites, List.mem_append, List.mem_map, List.mem_filter,
        List.mem_singleton, Write.event.injEq] at hmem
      rcases hmem with ⟨e, ⟨he, hmarked⟩, rfl, -⟩ | ⟨rfl, -⟩
      · have hlookup := (Dict.mem_lookup_entries _ e.1 e.2).2 he
        rw [hold] at hlookup
        cases hlookup
        simp only [decide_eq_true_eq] at hmarked
        simp [hmarked.2.1, eligibleKinds]
      · exact absurd (Option.isSome_iff_exists.2 ⟨old, hold⟩) h.1
    case insertEvent key row' =>
      simp only [exec, Option.ite_none_left_eq_some] at h
      cases hmem
      exact absurd (Option.isSome_iff_exists.2 ⟨old, hold⟩) h.1
  · intro k
    cases g with
    | enqueueMatchJob key =>
      simp only [Stmt.writes, List.mem_map, Write.job.injEq, exists_eq_right]
      split
      · next h => simp [h]
      · next h => simp; grind
    | leaseEvent a id => simp [Stmt.writes, leaseEventWrites]
    | _ => simp [Stmt.writes]

def Db.Backfills (db : Db) (community : CommunityId) (now : Int) (k : EventKey) : Prop :=
  ∃ row, db.events.lookup k = some row ∧ k.1 = community ∧ row.kind ∈ eligibleKinds ∧
    row.deletedAt = none ∧ row.receivedAt > now - pushGateBackfillSecs * 1000000

theorem mem_backfillJobs {community : CommunityId} {now : Int} :
    k ∈ db.backfillJobs community now ↔ db.Backfills community now k ∧ k ∉ db.queue := by
  simp only [Db.backfillJobs, Db.Backfills, List.mem_map, List.mem_filter, decide_eq_true_eq]
  constructor
  · rintro ⟨e, ⟨he, hcommunity, hkind, hdeleted, hreceived, hqueue⟩, rfl⟩
    exact ⟨⟨e.2, (Dict.mem_lookup_entries _ _ _).2 he, hcommunity, hkind, hdeleted, hreceived⟩,
      hqueue⟩
  · rintro ⟨⟨row, hrow, hcommunity, hkind, hdeleted, hreceived⟩, hqueue⟩
    exact ⟨⟨k, row⟩, ⟨(Dict.mem_lookup_entries _ _ _).1 hrow, hcommunity, hkind, hdeleted,
      hreceived, hqueue⟩, rfl⟩

def Db.HasEvent (db : Db) (k : EventKey) : Prop :=
  ∃ row, db.events.lookup k = some row ∧ row.kind ∈ eligibleKinds

def Passage.meets (x y : Passage) : Prop :=
  x.community = y.community ∧ (x.exclusive = true ∨ y.exclusive = true)

def Sees (history : List Passage) (gate : Nat) (community : CommunityId) (read : Db) : Prop :=
  ∀ p x e, p < gate → history[p]? = some x → x.community = community → x.subject = .inl e →
    read.HasEvent (community, e)

/-- The state a statement saw has the leases it read, and is none from before the passages that
came through the gate ahead of it. -/
def SeesLeases (s : Store) (gate : Nat) (read : Db) (readAt : Nat) : Prop :=
  (∃ seen, s.states[readAt]? = some seen ∧ read.leases = seen.leases) ∧
    ∀ q y, q < gate → s.history[q]? = some y → y.doneAt ≤ readAt

structure GateSound (s : Store) : Prop where
  current : s.states[s.states.length - 1]? = some s.db
  done : ∀ x ∈ s.history, x.doneAt < s.states.length
  looked : ∀ x ∈ s.history, ∀ e, x.subject = .inl e → SeesLeases s x.gate x.read x.readAt
  activated : ∀ x ∈ s.history, ∀ a v, x.subject = .inr (a, v) →
    ∃ db active, s.states[x.doneAt]? = some db ∧ db.leases.lookup a = some ⟨v, some active, true⟩
  bound : ∀ x ∈ s.history, x.gate ≤ s.history.length
  order : ∀ p q (x y : Passage), s.history[p]? = some x → s.history[q]? = some y → p < q → x.meets y →
    p < y.gate
  events : ∀ x ∈ s.history, ∀ e, x.subject = .inl e → s.db.HasEvent (x.community, e)
  opened : ∀ x ∈ s.history, ∀ e, x.subject = .inl e → x.read.gateOpen x.community x.now →
    (x.community, e) ∈ s.db.queue
  backfilled : ∀ x ∈ s.history, ∀ a v, x.subject = .inr (a, v) → a.community = x.community ∧
    Sees s.history x.gate x.community x.read ∧
    (∀ k, x.read.Backfills x.community x.now k → k ∈ x.jobs ∨ k ∈ x.read.queue) ∧
    ∀ k, k ∈ x.jobs ∨ k ∈ x.read.queue → k ∈ s.db.queue

def LastLease (ws : List Write) (a : Address) (l : Lease) : Prop :=
  ∃ before after, ws = before ++ .lease a l :: after ∧ ∀ l', .lease a l' ∉ after

structure GateKnows (K : Keys) (s : Store) (t : Tx) : Prop where
  looked : ∀ k, .enqueueMatchJob k ∈ t.passed → SeesLeases s t.gate t.read t.readAt
  leases : (∀ g ∈ t.passed, g.leases = false) → ∀ a l, .lease a l ∉ t.writes
  upserted : ∀ a l, .upsertLease a l ∈ t.passed ∨ .replaceLease a l ∈ t.passed →
    LastLease t.writes a l
  script : t.passed ++ t.rest = script K t.request
  bound : t.gate ≤ s.history.length
  held : ∀ community exclusive, .gate community exclusive ∈ t.passed →
    .advisory (K.gate community) exclusive ∈ t.held
  locked : ∀ k row, .event k row ∈ t.writes → .event k ∈ t.held
  -- Nobody has passed since who would have had to wait.
  quiet : ∀ community exclusive, .gate community exclusive ∈ t.passed →
    ∀ p x, t.gate ≤ p → s.history[p]? = some x → x.community = community →
      ¬ (x.exclusive = true ∨ exclusive = true)
  keeps : ∀ k, s.db.HasEvent k → (view s t).HasEvent k
  inserted : ∀ k row, .insertEvent k row ∈ t.passed → row.kind ∈ eligibleKinds →
    (∃ row', .event k row' ∈ t.writes) ∧ (view s t).HasEvent k
  opened : ∀ k, .enqueueMatchJob k ∈ t.passed → t.read.gateOpen k.1 t.now → k ∈ (view s t).queue
  backfilled : ∀ community, .backfill community ∈ t.passed →
    Sees s.history t.gate community t.read ∧
    (∀ k, t.read.Backfills community t.now k → .job k ∈ t.writes ∨ k ∈ t.read.queue) ∧
    ∀ k, k ∈ t.read.queue → k ∈ (view s t).queue

def Stmt.isGate : Stmt → Bool
  | .gate _ _ => true
  | _ => false

theorem script_pairwise (r : Request) :
    (script K r).Pairwise fun g g' => g.decides → ¬ (g'.isGate ∨ g'.decides) := by
  cases r with
  | insertEvent key row => by_cases h : row.kind ∈ eligibleKinds <;>
      simp [script, h, Stmt.decides, Stmt.isGate]
  | acceptLeaseEvent r =>
    obtain ⟨a, id, v, active, max⟩ := r
    cases active <;> simp [script, acceptScript, Stmt.decides, Stmt.isGate]
  | replaceLease a v active => cases active <;> simp [script, Stmt.decides, Stmt.isGate]
  | enqueueWakes community requests ids => simp [script, Stmt.decides]

def Stmt.upserts : Stmt → Bool
  | .upsertLease _ _ | .replaceLease _ _ => true
  | _ => false

theorem script_upserts_last (r : Request) :
    (script K r).Pairwise fun g g' => g.upserts → g'.leases = false := by
  cases r with
  | insertEvent key row => by_cases h : row.kind ∈ eligibleKinds <;>
      simp [script, h, Stmt.leases, Stmt.upserts]
  | acceptLeaseEvent r =>
    obtain ⟨a, id, v, active, max⟩ := r
    cases active <;> simp [script, acceptScript, Stmt.leases, Stmt.upserts]
  | replaceLease a v active => cases active <;> simp [script, Stmt.leases, Stmt.upserts]
  | enqueueWakes community requests ids => simp [script, Stmt.upserts]

theorem script_leases {r : Request} {k : EventKey} (h : .enqueueMatchJob k ∈ script K r) :
    ∀ g ∈ script K r, g.leases = false := by
  cases r with
  | insertEvent key row =>
    by_cases hkind : row.kind ∈ eligibleKinds <;> simp [script, hkind, Stmt.leases]
  | acceptLeaseEvent r =>
    obtain ⟨a, id, v, active, max⟩ := r
    cases active <;> simp [script, acceptScript] at h
  | replaceLease a v active => cases active <;> simp [script] at h
  | enqueueWakes community requests ids => simp [script] at h

theorem LastLease.append {a : Address} {l : Lease} (h : LastLease ws a l) {more : List Write}
    (hmore : ∀ l', .lease a l' ∉ more) : LastLease (ws ++ more) a l := by
  obtain ⟨before, after, rfl, hafter⟩ := h
  refine ⟨before, after ++ more, by simp, fun l' hl' => ?_⟩
  exact (List.mem_append.1 hl').elim (hafter l') (hmore l')

theorem LastLease.lookup {a : Address} {l : Lease} (h : LastLease ws a l) :
    (ws.foldl Db.write db).leases.lookup a = some l := by
  obtain ⟨before, after, rfl, hafter⟩ := h
  rw [List.foldl_append, List.foldl_cons, foldl_write_leases_of_not_mem hafter]
  simp [Db.write]

theorem HasEvent.writes {k : EventKey} (h : (view s t).HasEvent k)
    (hws : ∀ k row, .event k row ∈ ws → ∀ old, (view s t).events.lookup k = some old →
      old.kind ∉ eligibleKinds) : (ws.foldl Db.write (view s t)).HasEvent k := by
  obtain ⟨row, hrow, hkind⟩ := h
  refine ⟨row, ?_, hkind⟩
  rw [foldl_write_events_of_not_mem fun row' hrow' => hws k row' hrow' row hrow hkind]
  exact hrow

theorem Does.view {g : Stmt} (h : Does s t g t' ws) : view s t' = ws.foldl Db.write (view s t) := by
  rw [Push.view, h.writes, List.foldl_append]
  rfl

section Go

variable {g : Stmt} {rest : List Stmt}

theorem Does.keeps (h : Does s t g t' ws) (hdecides : g.decides = false) (hgate : g.isGate = false) :
    t'.gate = t.gate ∧ t'.read = t.read ∧ t'.readAt = t.readAt := by
  refine ⟨?_, by rw [h.read, hdecides]; rfl, by rw [h.readAt, hdecides]; rfl⟩
  rw [h.gate]
  cases g <;> first | rfl | cases hgate

variable (h : GateKnows K s t) (hrest : t.rest = g :: rest)
include h hrest

-- After a statement that decides, none takes the gate or decides.
theorem GateKnows.undecided {g' : Stmt} (hmem : g' ∈ t.passed) (hdecides : g'.decides = true) :
    g.decides = false ∧ g.isGate = false := by
  have hpairwise := script_pairwise (K := K) t.request
  rw [← h.script, hrest, List.pairwise_append] at hpairwise
  have hnot := hpairwise.2.2 g' hmem g List.mem_cons_self hdecides
  exact ⟨by simpa using fun hg => hnot (.inr hg), by simpa using fun hg => hnot (.inl hg)⟩

theorem GateKnows.upserts_last {g' : Stmt} (hmem : g' ∈ t.passed) (hupserts : g'.upserts = true) :
    g.leases = false := by
  have hlast := script_upserts_last (K := K) t.request
  rw [← h.script, hrest, List.pairwise_append] at hlast
  exact hlast.2.2 g' hmem g List.mem_cons_self hupserts

variable (hdoes : Does s t g t' ws)
include hdoes

theorem GateKnows.go_looked (hs : GateSound s) (hmem : .enqueueMatchJob k ∈ t.passed ++ [g]) :
    SeesLeases s t'.gate t'.read t'.readAt := by
  rcases List.mem_append.1 hmem with hmem | hmem
  · obtain ⟨hdecides, hisGate⟩ := h.undecided hrest hmem rfl
    obtain ⟨hgate, hread, hreadAt⟩ := hdoes.keeps hdecides hisGate
    rw [hgate, hread, hreadAt]
    exact h.looked k hmem
  · obtain rfl := List.mem_singleton.1 hmem
    have hread : t'.read = view s t := hdoes.read
    have hreadAt : t'.readAt = s.states.length - 1 := hdoes.readAt
    have hscript : .enqueueMatchJob k ∈ Push.script K t.request := by rw [← h.script, hrest]; simp
    have hnone : ∀ g' ∈ t.passed, g'.leases = false := fun g' hg' =>
      script_leases hscript g' (h.script ▸ List.mem_append_left _ hg')
    rw [hread, hreadAt]
    refine ⟨⟨s.db, hs.current, foldl_write_leases_eq (h.leases hnone)⟩, fun q y _ hy => ?_⟩
    exact Nat.le_sub_one_of_lt (hs.done y (List.mem_of_getElem? hy))

theorem GateKnows.go_upserted {a : Address} {l : Lease}
    (hmem : .upsertLease a l ∈ t.passed ++ [g] ∨ .replaceLease a l ∈ t.passed ++ [g]) :
    LastLease t'.writes a l := by
  rw [hdoes.writes]
  by_cases hself : g = .upsertLease a l ∨ g = .replaceLease a l
  · exact ⟨t.writes, [], by rw [hdoes.upserts a l hself], by simp⟩
  · have hold : .upsertLease a l ∈ t.passed ∨ .replaceLease a l ∈ t.passed := by
      simp only [List.mem_append, List.mem_singleton, @eq_comm _ _ g] at hmem
      tauto
    have hlate : g.leases = false :=
      hold.elim (fun hold => h.upserts_last hrest hold rfl) fun hold => h.upserts_last hrest hold rfl
    exact (h.upserted a l hold).append (hdoes.leases hlate a)

theorem GateKnows.go_quiet {community : CommunityId} {exclusive : Bool}
    (hmem : .gate community exclusive ∈ t.passed ++ [g]) {p : Nat} {x : Passage} (hp : t'.gate ≤ p)
    (hx : s.history[p]? = some x) (hcommunity : x.community = community) :
    ¬ (x.exclusive = true ∨ exclusive = true) := by
  rcases List.mem_append.1 hmem with hmem | hmem
  · by_cases hgate : t'.gate = t.gate
    · exact h.quiet community exclusive hmem p x (hgate ▸ hp) hx hcommunity
    · have hlength : t'.gate = s.history.length := by
        rw [hdoes.gate] at hgate ⊢
        cases g <;> first | rfl | exact absurd rfl hgate
      exact absurd (List.getElem?_eq_some_iff.1 hx).1 (Nat.not_lt.2 (hlength ▸ hp))
  · obtain rfl := List.mem_singleton.1 hmem
    have hlength : t'.gate = s.history.length := hdoes.gate
    exact absurd (List.getElem?_eq_some_iff.1 hx).1 (Nat.not_lt.2 (hlength ▸ hp))

omit hrest in
theorem GateKnows.go_inserted {row : EventRow} (hmem : .insertEvent k row ∈ t.passed ++ [g])
    (hkind : row.kind ∈ eligibleKinds) :
    (∃ row', .event k row' ∈ t'.writes) ∧ (view s t').HasEvent k := by
  rw [hdoes.view, hdoes.writes]
  rcases List.mem_append.1 hmem with hmem | hmem
  · obtain ⟨⟨row', hrow'⟩, hhas⟩ := h.inserted k row hmem hkind
    exact ⟨⟨row', List.mem_append_left _ hrow'⟩, HasEvent.writes hhas hdoes.events⟩
  · rw [hdoes.inserts k row (List.mem_singleton.1 hmem).symm]
    exact ⟨⟨row, by simp⟩, row, by simp [Db.write], hkind⟩

theorem GateKnows.go_opened (hmem : .enqueueMatchJob k ∈ t.passed ++ [g])
    (hopen : t'.read.gateOpen k.1 t'.now) : k ∈ (view s t').queue := by
  rw [hdoes.view, foldl_write_queue]
  rcases List.mem_append.1 hmem with hmem | hmem
  · obtain ⟨hdecides, hisGate⟩ := h.undecided hrest hmem rfl
    rw [(hdoes.keeps hdecides hisGate).2.1, hdoes.now] at hopen
    exact .inl (h.opened k hmem hopen)
  · obtain rfl := List.mem_singleton.1 hmem
    have hread : t'.read = view s t := hdoes.read
    rw [hread, hdoes.now] at hopen
    by_cases hqueue : k ∈ (view s t).queue
    · exact .inl hqueue
    · exact .inr ((hdoes.jobs k).2 ⟨rfl, hopen, hqueue⟩)

theorem GateKnows.go_backfilled (hs : GateSound s) {community : CommunityId}
    (hmem : .backfill community ∈ t.passed ++ [g]) : Sees s.history t'.gate community t'.read ∧
      (∀ k, t'.read.Backfills community t'.now k → .job k ∈ t'.writes ∨ k ∈ t'.read.queue) ∧
      ∀ k, k ∈ t'.read.queue → k ∈ (view s t').queue := by
  simp only [hdoes.view, foldl_write_queue, hdoes.now, hdoes.writes, List.mem_append]
  rcases List.mem_append.1 hmem with hmem | hmem
  · obtain ⟨hdecides, hisGate⟩ := h.undecided hrest hmem rfl
    obtain ⟨hgate, hread, -⟩ := hdoes.keeps hdecides hisGate
    obtain ⟨hsees, hjobs, hqueue⟩ := h.backfilled community hmem
    rw [hgate, hread]
    exact ⟨hsees, fun k hk => (hjobs k hk).imp_left .inl, fun k hk => .inl (hqueue k hk)⟩
  · obtain rfl := List.mem_singleton.1 hmem
    have hread : t'.read = view s t := hdoes.read
    rw [hread]
    refine ⟨fun p x e _ hx hcommunity hsubject => ?_, fun k hk => ?_, fun k hk => .inl hk⟩
    · rw [← hcommunity]
      exact h.keeps _ (hs.events x (List.mem_of_getElem? hx) e hsubject)
    · by_cases hqueue : k ∈ (view s t).queue
      · exact .inr hqueue
      · exact .inl (.inr ((hdoes.jobs k).2 (mem_backfillJobs.2 ⟨hk, hqueue⟩)))

theorem GateKnows.go {held : List Lock} (hs : GateSound s)
    (hheld : held = t.held ++ stmtLocks K s t g ++ ws.flatMap Write.locks) :
    GateKnows K s { t' with passed := t.passed ++ [g], rest := rest, held := held } where
  looked _ hmem := by
    have hlooked := h.go_looked hrest hdoes hs hmem
    exact hlooked
  leases hnone a l hmem := by
    rcases List.mem_append.1 (hdoes.writes ▸ hmem) with hmem | hmem
    · exact h.leases (fun g' hg' => hnone g' (List.mem_append_left _ hg')) a l hmem
    · exact hdoes.leases (hnone g (List.mem_append_right _ List.mem_cons_self)) a l hmem
  upserted _ _ hmem := h.go_upserted hrest hdoes hmem
  script := by rw [hdoes.request, ← h.script, hrest, List.append_assoc, List.singleton_append]
  bound := by
    show t'.gate ≤ _
    rw [hdoes.gate]
    cases g <;> first | exact h.bound | exact le_rfl
  held community exclusive hmem := by
    rw [hheld]
    rcases List.mem_append.1 hmem with hmem | hmem
    · exact List.mem_append_left _ (List.mem_append_left _ (h.held community exclusive hmem))
    · obtain rfl := List.mem_singleton.1 hmem
      exact List.mem_append_left _ (List.mem_append_right _ List.mem_cons_self)
  locked k row hmem := by
    rw [hheld]
    rcases List.mem_append.1 (hdoes.writes ▸ hmem) with hmem | hmem
    · exact List.mem_append_left _ (List.mem_append_left _ (h.locked k row hmem))
    · exact List.mem_append_right _ (List.mem_flatMap.2 ⟨_, hmem, List.mem_cons_self⟩)
  quiet _ _ hmem _ _ hp hx hcommunity := h.go_quiet hrest hdoes hmem hp hx hcommunity
  keeps k hk := hdoes.view ▸ HasEvent.writes (h.keeps k hk) hdoes.events
  inserted _ _ hmem hkind := by
    have hinserted := h.go_inserted hdoes hmem hkind
    exact hinserted
  opened _ hmem hopen := by
    have hopened := h.go_opened hrest hdoes hmem hopen
    exact hopened
  backfilled _ hmem := h.go_backfilled hrest hdoes hs hmem

end Go

theorem Lock.conflicts_symm (x y : Lock) : x.conflicts y = y.conflicts x := by
  cases x <;> cases y <;> simp [Lock.conflicts, eq_comm, or_comm]

theorem clash_eq_false : (system K).clash t u = false ↔
    ∀ x ∈ t.held, ∀ y ∈ u.held, x.conflicts y = false := by
  simp [system]

theorem Lock.conflicts_event (k : EventKey) : (Lock.event k).conflicts (.event k) = true := by
  simp [Lock.conflicts]

theorem view_events (s : Store) (t : Tx) (k : EventKey) :
    (∃ row, .event k row ∈ t.writes) ∨
      (view s t).events.lookup k = s.db.events.lookup k := by
  by_cases h : ∃ row, .event k row ∈ t.writes
  · exact .inl h
  · exact .inr (foldl_write_events_of_not_mem fun row hrow => h ⟨row, hrow⟩)

theorem Sees.append {history more : List Passage} {gate : Nat} {community : CommunityId} {read : Db}
    (h : Sees history gate community read) (hgate : gate ≤ history.length) :
    Sees (history ++ more) gate community read := by
  intro p x e hp hx
  rw [List.getElem?_append_left (hp.trans_le hgate)] at hx
  exact h p x e hp hx

theorem SeesLeases.mono {gate readAt : Nat} {read : Db} {more : List Passage} {states : List Db}
    (h : SeesLeases s gate read readAt) (hgate : gate ≤ s.history.length)
    (hhistory : s'.history = s.history ++ more) (hstates : s'.states = s.states ++ states) :
    SeesLeases s' gate read readAt := by
  obtain ⟨⟨seen, hseen, hread⟩, hafter⟩ := h
  refine ⟨⟨seen, ?_, hread⟩, fun q y hq hy => hafter q y hq ?_⟩
  · rw [hstates, List.getElem?_append_left (List.getElem?_eq_some_iff.1 hseen).1, hseen]
  · rwa [hhistory, List.getElem?_append_left (hq.trans_le hgate)] at hy

theorem GateKnows.mono {more : List Passage} {states : List Db} (h : GateKnows K s t)
    (hhistory : s'.history = s.history ++ more) (hstates : s'.states = s.states ++ states)
    (hqueue : ∀ k ∈ s.db.queue, k ∈ s'.db.queue)
    (hevents : ∀ k row, .event k row ∈ t.writes → s'.db.events.lookup k = s.db.events.lookup k)
    (hquiet : ∀ community exclusive, .gate community exclusive ∈ t.passed → ∀ x ∈ more,
      x.community = community → ¬ (x.exclusive = true ∨ exclusive = true)) :
    GateKnows K s' t := by
  have hbound : t.gate ≤ s'.history.length := by
    rw [hhistory, List.length_append]
    exact h.bound.trans (Nat.le_add_right _ _)
  have hview : ∀ k ∈ (view s t).queue, k ∈ (view s' t).queue := by
    intro k hk
    rw [view, foldl_write_queue] at hk ⊢
    exact hk.imp_left (hqueue k)
  have hlookup {k : EventKey} {row : EventRow} (hrow : .event k row ∈ t.writes) :
      (view s' t).events.lookup k = (view s t).events.lookup k := foldl_write_events_of_mem hrow
  refine ⟨fun k hk => (h.looked k hk).mono h.bound hhistory hstates, h.leases, h.upserted, h.script,
    hbound, h.held, h.locked, ?_, ?_, ?_, fun k hk hopen => hview k (h.opened k hk hopen), ?_⟩
  · intro community exclusive hgate p x hp hx hcommunity
    rw [hhistory] at hx
    rcases lt_or_ge p s.history.length with hlt | hge
    · rw [List.getElem?_append_left hlt] at hx
      exact h.quiet community exclusive hgate p x hp hx hcommunity
    · rw [List.getElem?_append_right hge] at hx
      exact hquiet community exclusive hgate x (List.mem_of_getElem? hx) hcommunity
  · intro k hk
    rcases view_events s' t k with ⟨row, hrow⟩ | heq
    · have hs : s.db.HasEvent k := by rwa [Db.HasEvent, ← hevents k row hrow]
      rw [Db.HasEvent, hlookup hrow]
      exact h.keeps k hs
    · rwa [Db.HasEvent, heq]
  · intro k row hmem hkind
    obtain ⟨⟨row', hrow'⟩, hhas⟩ := h.inserted k row hmem hkind
    refine ⟨⟨row', hrow'⟩, ?_⟩
    rw [Db.HasEvent, hlookup hrow']
    exact hhas
  · intro community hmem
    obtain ⟨hsees, hjobs, hread⟩ := h.backfilled community hmem
    rw [hhistory]
    exact ⟨hsees.append h.bound, hjobs, fun k hk => hview k (hread k hk)⟩

theorem mem_jobs_iff (writes : List Write) (k : EventKey) : (k ∈ writes.filterMap fun w =>
    match w with
    | .job k => some k
    | _ => none) ↔ .job k ∈ writes := by
  rw [List.mem_filterMap]
  constructor
  · rintro ⟨w, hw, heq⟩
    cases w <;> simp at heq
    exact heq ▸ hw
  · exact fun hk => ⟨_, hk, rfl⟩

theorem gate_of_passages {x : Passage} {doneAt : Nat} (h : x ∈ passages doneAt u) :
    .gate x.community x.exclusive ∈ script K u.request ∧ x.gate = u.gate ∧ x.read = u.read ∧
      x.readAt = u.readAt ∧ x.doneAt = doneAt ∧ x.now = u.now ∧ (∀ k, k ∈ x.jobs ↔ .job k ∈ u.writes) ∧
      (∀ e, x.subject = .inl e → .enqueueMatchJob (x.community, e) ∈ script K u.request ∧
        ∃ row, .insertEvent (x.community, e) row ∈ script K u.request ∧ row.kind ∈ eligibleKinds) ∧
      ∀ a v, x.subject = .inr (a, v) → a.community = x.community ∧
        .backfill x.community ∈ script K u.request ∧ ∃ active,
          .upsertLease a ⟨v, some active, true⟩ ∈ script K u.request ∨
            .replaceLease a ⟨v, some active, true⟩ ∈ script K u.request := by
  have hjobs := mem_jobs_iff u.writes
  unfold passages at h
  split at h
  · next key row hrequest =>
    split at h
    · next hkind =>
      obtain rfl := List.mem_singleton.1 h
      simp only [hrequest, script, hkind, if_true]
      refine ⟨by simp [Passage.exclusive], trivial, trivial, trivial, trivial, trivial, hjobs,
        fun e he => ?_, fun a v he => by cases he⟩
      cases he
      exact ⟨by simp, row, by simp, hkind⟩
    · cases h
  · next r hrequest =>
    split at h
    · next hactive =>
      obtain rfl := List.mem_singleton.1 h
      obtain ⟨active, hactive⟩ := Option.isSome_iff_exists.1 hactive
      simp only [hrequest, script, acceptScript, hactive]
      refine ⟨by simp [Passage.exclusive], trivial, trivial, trivial, trivial, trivial, hjobs,
        fun e he => (by cases he), fun a v he => ?_⟩
      cases he
      exact ⟨rfl, by simp, _, by simp; rfl⟩
    · cases h
  · next a version active hrequest =>
    split at h
    · next hactive =>
      obtain rfl := List.mem_singleton.1 h
      obtain ⟨active', hactive⟩ := Option.isSome_iff_exists.1 hactive
      simp only [hrequest, script, hactive]
      refine ⟨by simp [Passage.exclusive], trivial, trivial, trivial, trivial, trivial, hjobs,
        fun e he => (by cases he), fun a v he => ?_⟩
      cases he
      exact ⟨rfl, by simp, _, by simp; rfl⟩
    · cases h
  · cases h

theorem next_commit (h : (system K).next s t = .commit s') :
    t.rest = [] ∧ s' = { s with
      db := view s t
      history := s.history ++ passages s.states.length t
      states := s.states ++ [view s t] } := by
  simp only [system] at h
  split at h
  · next hrest =>
    cases h
    exact ⟨hrest, rfl⟩
  · split at h <;> cases h

theorem next_go (h : (system K).next s t = .go t') :
    ∃ g rest t₁, t.rest = g :: rest ∧ exec s t g = some t₁ ∧
      t' = { t₁ with
        passed := t.passed ++ [g]
        rest := rest
        held := t.held ++ stmtLocks K s t g ++
          (t₁.writes.drop t.writes.length).flatMap Write.locks } := by
  simp only [system] at h
  split at h
  · cases h
  · next g rest hrest =>
    split at h
    · cases h
    · next t₁ hexec =>
      cases h
      exact ⟨g, rest, t₁, hrest, hexec, rfl⟩

theorem next_ne_save : (system K).next s t ≠ .save s' t' := by
  simp only [system]
  split
  · exact fun h => nomatch h
  · split <;> exact fun h => nomatch h

theorem GateKnows.passed (h : GateKnows K s t) (hrest : t.rest = []) :
    t.passed = Push.script K t.request := by
  rw [← h.script, hrest, List.append_nil]

theorem mem_view_queue (s : Store) (t : Tx) : ∀ k ∈ s.db.queue, k ∈ (view s t).queue := fun k hk => by
  rw [view, foldl_write_queue]
  exact .inl hk

theorem length_passages (doneAt : Nat) (t : Tx) : (passages doneAt t).length ≤ 1 := by
  unfold passages
  split <;> simp <;> split <;> simp

-- Who meets an earlier passage came through the gate after it: the lock was held till the commit.
theorem GateSound.order_commit (hs : GateSound s) (h : GateKnows K s t) (hrest : t.rest = [])
    {doneAt p q : Nat} {x y : Passage} (hx : (s.history ++ passages doneAt t)[p]? = some x)
    (hy : (s.history ++ passages doneAt t)[q]? = some y) (hpq : p < q) (hmeets : x.meets y) :
    p < y.gate := by
  rcases lt_or_ge q s.history.length with hq | hq
  · rw [List.getElem?_append_left hq] at hy
    rw [List.getElem?_append_left (hpq.trans hq)] at hx
    exact hs.order p q x y hx hy hpq hmeets
  · rw [List.getElem?_append_right hq] at hy
    have hlt := (List.getElem?_eq_some_iff.1 hy).1
    have hsingle := length_passages doneAt t
    have hp : p < s.history.length := by omega
    rw [List.getElem?_append_left hp] at hx
    obtain ⟨hgate, hindex, -⟩ := gate_of_passages (K := K) (List.mem_of_getElem? hy)
    rw [hindex]
    by_contra hge
    exact h.quiet _ _ (h.passed hrest ▸ hgate) p x (Nat.not_lt.1 hge) hx hmeets.1 hmeets.2

theorem GateSound.commit (hs : GateSound s) (h : GateKnows K s t) (hrest : t.rest = []) :
    GateSound { s with
      db := view s t
      history := s.history ++ passages s.states.length t
      states := s.states ++ [view s t] } where
  current := by simp
  done x hx := by
    rw [List.length_append]
    rcases List.mem_append.1 hx with hx | hx
    · exact Nat.lt_add_right _ (hs.done x hx)
    · obtain ⟨-, -, -, -, hdone, -⟩ := gate_of_passages (K := K) hx
      rw [hdone]
      exact Nat.lt_succ_self _
  looked x hx e he := by
    rcases List.mem_append.1 hx with hx | hx
    · exact (hs.looked x hx e he).mono (hs.bound x hx) rfl rfl
    · obtain ⟨-, hindex, hread, hreadAt, -, -, -, hevent, -⟩ := gate_of_passages (K := K) hx
      rw [hindex, hread, hreadAt]
      exact (h.looked _ (h.passed hrest ▸ (hevent e he).1)).mono h.bound rfl rfl
  activated x hx a v he := by
    rcases List.mem_append.1 hx with hx | hx
    · obtain ⟨db, active, hdb, hlookup⟩ := hs.activated x hx a v he
      refine ⟨db, active, ?_, hlookup⟩
      rw [List.getElem?_append_left (hs.done x hx), hdb]
    · obtain ⟨-, -, -, -, hdone, -, -, -, hlease⟩ := gate_of_passages (K := K) hx
      obtain ⟨-, -, active, hupsert⟩ := hlease a v he
      exact ⟨view s t, active, by simp [hdone], (h.upserted a _ (h.passed hrest ▸ hupsert)).lookup⟩
  bound x hx := by
    rw [List.length_append]
    rcases List.mem_append.1 hx with hx | hx
    · exact (hs.bound x hx).trans (Nat.le_add_right _ _)
    · rw [(gate_of_passages (K := K) hx).2.1]
      exact h.bound.trans (Nat.le_add_right _ _)
  order _ _ _ _ hx hy hpq hmeets := hs.order_commit h hrest hx hy hpq hmeets
  events x hx e he := by
    rcases List.mem_append.1 hx with hx | hx
    · exact h.keeps _ (hs.events x hx e he)
    · obtain ⟨-, -, -, -, -, -, -, hevent, -⟩ := gate_of_passages (K := K) hx
      obtain ⟨-, row, hrow, hkind⟩ := hevent e he
      exact (h.inserted _ row (h.passed hrest ▸ hrow) hkind).2
  opened x hx e he hopen := by
    rcases List.mem_append.1 hx with hx | hx
    · exact mem_view_queue s t _ (hs.opened x hx e he hopen)
    · obtain ⟨-, -, hread, -, -, hnow, -, hevent, -⟩ := gate_of_passages (K := K) hx
      rw [hread, hnow] at hopen
      exact h.opened _ (h.passed hrest ▸ (hevent e he).1) hopen
  backfilled x hx a v he := by
    rcases List.mem_append.1 hx with hx | hx
    · obtain ⟨hcommunity, hseen, hdue, hold⟩ := hs.backfilled x hx a v he
      exact ⟨hcommunity, hseen.append (hs.bound x hx), hdue,
        fun k hk => mem_view_queue s t k (hold k hk)⟩
    · obtain ⟨-, hindex, hread, -, -, hnow, hjobs, -, hlease⟩ := gate_of_passages (K := K) hx
      obtain ⟨hcommunity, hbackfill, -⟩ := hlease a v he
      obtain ⟨hseen, hdue, hold⟩ := h.backfilled _ (h.passed hrest ▸ hbackfill)
      rw [hread, hnow, hindex]
      simp only [hjobs]
      refine ⟨hcommunity, hseen.append h.bound, hdue, fun k hk => hk.elim (fun hk => ?_) (hold k)⟩
      show k ∈ (view s t).queue
      rw [view, foldl_write_queue]
      exact .inr hk

theorem envDb_events (s : Store) (e : Env) : (envDb s e).queue = s.db.queue ∧
    ∀ k, (envDb s e).events.lookup k = s.db.events.lookup k ∨
      .event k ∈ e.locks ∧ ∃ row, s.db.events.lookup k = some row ∧
        (envDb s e).events.lookup k = some { row with deletedAt := some s.clock } := by
  cases e with
  | disableEndpointGeneration a generation =>
    simp only [envDb, Db.disableEndpointGeneration]
    split
    · exact ⟨rfl, fun _ => .inl rfl⟩
    · split <;> exact ⟨rfl, fun _ => .inl rfl⟩
  | deleteEvent k =>
    simp only [envDb]
    split
    · exact ⟨rfl, fun _ => .inl rfl⟩
    · next row hrow =>
      refine ⟨rfl, fun k' => ?_⟩
      by_cases hk : k' = k
      · subst hk
        exact .inr ⟨by simp [Env.locks], row, hrow, by simp⟩
      · exact .inl (by simp [hk])
  | _ => exact ⟨rfl, fun _ => .inl rfl⟩

theorem GateSound.env (hs : GateSound s) (e : Env) : GateSound ((system K).env s e) := by
  obtain ⟨hqueue, hevents⟩ := envDb_events s e
  have hhas : ∀ k, s.db.HasEvent k → (envDb s e).HasEvent k := by
    rintro k ⟨row, hrow, hkind⟩
    rcases hevents k with heq | ⟨-, row', hrow', heq⟩
    · exact ⟨row, heq.trans hrow, hkind⟩
    · rw [hrow] at hrow'
      cases hrow'
      exact ⟨_, heq, hkind⟩
  have hqueue' : ((system K).env s e).db.queue = s.db.queue := hqueue
  refine ⟨by simp [system], fun x hx => ?_, fun x hx ev he => (hs.looked x hx ev he).mono
    (hs.bound x hx) (List.append_nil _).symm rfl, fun x hx a v he => ?_, hs.bound, hs.order,
    fun x hx ev he => hhas _ (hs.events x hx ev he), ?_, ?_⟩
  · simp only [system, List.length_append]
    exact Nat.lt_add_right _ (hs.done x hx)
  · obtain ⟨db, active, hdb, hlookup⟩ := hs.activated x hx a v he
    refine ⟨db, active, ?_, hlookup⟩
    simp only [system]
    rw [List.getElem?_append_left (hs.done x hx), hdb]
  · rw [hqueue']
    exact hs.opened
  · rw [hqueue']
    exact hs.backfilled

theorem gateRule : (system K).Rule (fun _ => True) GateSound (GateKnows K) where
  symm t u := by
    rw [Bool.eq_iff_iff, ← not_iff_not, Bool.not_eq_true, Bool.not_eq_true, clash_eq_false,
      clash_eq_false]
    exact ⟨fun h x hx y hy => (Lock.conflicts_symm x y).trans (h y hy x hx),
      fun h x hx y hy => (Lock.conflicts_symm x y).trans (h y hy x hx)⟩
  start s tid r t _ hs hstart := by
    cases hstart
    exact ⟨⟨by simp, by simp, by simp, rfl, Nat.zero_le _, by simp, by simp, by simp, fun k hk => hk,
      by simp, by simp, by simp⟩, fun u => rfl⟩
  go s t t' hs ht hnext := by
    obtain ⟨g, rest, t₁, hrest, hexec, rfl⟩ := next_go hnext
    have hdoes := does_of_exec hexec
    exact ht.go hrest hdoes hs (by rw [hdoes.writes, List.drop_left])
  save s t s' t' _ _ hnext := absurd hnext next_ne_save
  commit s t s' hs ht hnext := by
    obtain ⟨hrest, rfl⟩ := next_commit hnext
    refine ⟨hs.commit ht hrest, fun u hu hclash => ?_⟩
    rw [clash_eq_false] at hclash
    refine hu.mono rfl rfl (mem_view_queue s t) (fun k row hrow => ?_) fun community exclusive hgate x hx
      hcommunity hmode => ?_
    · -- who writes the same event has to wait
      refine (view_events s t k).resolve_left fun ⟨row', hrow'⟩ => ?_
      have := hclash _ (ht.locked k row' hrow') _ (hu.locked k row hrow)
      rw [Lock.conflicts_event] at this
      cases this
    · have hgate' := (gate_of_passages (K := K) hx).1
      rw [← ht.passed hrest] at hgate'
      have := hclash _ (ht.held _ _ hgate') _ (hu.held _ _ hgate)
      simp [Lock.conflicts, hcommunity] at this
      simp_all
  env s e _ hs := by
    refine ⟨hs.env e, fun u hu hfree => ?_⟩
    obtain ⟨hqueue, hevents⟩ := envDb_events s e
    refine hu.mono (List.append_nil _).symm rfl (fun k hk => ?_) (fun k row hrow => ?_) (by simp)
    · show k ∈ (envDb s e).queue
      rwa [hqueue]
    · refine (hevents k).resolve_right fun hmarked => ?_
      simp only [system, List.any_eq_false] at hfree
      exact hfree _ hmarked.1
        (List.any_eq_true.2 ⟨_, hu.locked k row hrow, Lock.conflicts_event k⟩)

theorem gateSound_start : GateSound ⟨Db.empty, 0, [], [Db.empty]⟩ :=
  ⟨rfl, by simp, by simp, by simp, by simp, by simp, by simp, by simp, by simp⟩

/-- For an event and an activation of one community that have both committed, either the event's
transaction took the gate lock after the activation had committed, and the trigger looked at leases
as they stood at that commit or later: the event has a match job if the lease was still in effect.
Or the event had committed when the activation took the lock, and the activation has seen it: an
event that was recent and not deleted then has a match job, queued by the activation if it was not
queued already. -/
theorem run_gate (K : Keys) (calls : List (TxCall Request Env)) :
    let s := (runFrom (system K).step start calls).store
    ∀ p q (x y : Passage) e a v, s.history[p]? = some x → s.history[q]? = some y →
      x.subject = .inl e → y.subject = .inr (a, v) → x.community = y.community →
      (q < x.gate ∧ (∃ db active, s.states[y.doneAt]? = some db ∧
          db.leases.lookup a = some ⟨v, some active, true⟩) ∧
        y.doneAt ≤ x.readAt ∧ ∃ db, s.states[x.readAt]? = some db ∧
          ∀ l, db.leases.lookup a = some l → l.version = v → l.effective x.now = true →
            (x.community, e) ∈ s.db.queue) ∨
      (p < y.gate ∧ ∃ row, y.read.events.lookup (x.community, e) = some row ∧
        (row.deletedAt = none → row.receivedAt > y.now - pushGateBackfillSecs * 1000000 →
          ((x.community, e) ∈ y.read.queue ∨ (x.community, e) ∈ y.jobs) ∧
          (x.community, e) ∈ s.db.queue)) := by
  intro s p q x y e a v hx hy he hlease hcommunity
  have hs : GateSound s := (gateRule.run (fun _ _ => trivial)
    (TxSystem.holds_idle (J := GateKnows K) gateSound_start)).store
  have hmemx := List.mem_of_getElem? hx
  have hmemy := List.mem_of_getElem? hy
  obtain ⟨hacommunity, hsees, hdue, hqueued⟩ := hs.backfilled y hmemy a v hlease
  have hexclusive : y.exclusive = true := by simp [Passage.exclusive, hlease]
  rcases lt_trichotomy p q with hpq | rfl | hqp
  · have hgate := hs.order p q x y hx hy hpq ⟨hcommunity, .inr hexclusive⟩
    obtain ⟨row, hrow, hkind⟩ := hsees p x e hgate hx hcommunity he
    rw [← hcommunity] at hrow
    refine .inr ⟨hgate, row, hrow, fun hdeleted hreceived => ?_⟩
    have hjob := hdue (x.community, e) ⟨row, hrow, hcommunity, hkind, hdeleted, hreceived⟩
    exact ⟨hjob.symm, hqueued _ hjob⟩
  · rw [hx] at hy
    cases hy
    rw [he] at hlease
    cases hlease
  · have hgate := hs.order q p y x hy hx hqp ⟨hcommunity.symm, .inl hexclusive⟩
    obtain ⟨⟨db, hdb, hread⟩, hafter⟩ := hs.looked x hmemx e he
    refine .inl ⟨hgate, hs.activated y hmemy a v hlease, hafter q y hgate hy, db, hdb, ?_⟩
    intro l hl hversion heffective
    rw [← hread] at hl
    refine hs.opened x hmemx e he (List.any_eq_true.2 ⟨⟨a, l⟩, ?_, ?_⟩)
    · exact (Dict.mem_lookup_entries _ _ _).1 hl
    · simp [hacommunity, hcommunity, heffective]

def sampleKeys : Keys := ⟨fun _ => 1, fun _ _ => 2, fun _ => 3⟩

def sampleLease (n : Nat) : LeaseRequest where
  address := ⟨⟨5⟩, ⟨7⟩, if n = 1 then "phone" else "tablet"⟩
  eventId := ⟨n⟩
  version := ⟨⟨n⟩, 0, 1, 1000⟩
  active := some ⟨"app", n, "grant", .default, "[]"⟩
  maxActiveLeases := 4

def sampleKey : EventKey := (⟨5⟩, ⟨9⟩)

def sampleRow : EventRow := ⟨9, ⟨8⟩, none, 0, none⟩

def sampleCalls : List (TxCall Request Env) :=
  .start 0 (.acceptLeaseEvent (sampleLease 1)) :: List.replicate 12 (.advance 0) ++
    .start 0 (.insertEvent sampleKey sampleRow) :: List.replicate 4 (.advance 0) ++
    .start 0 (.acceptLeaseEvent (sampleLease 2)) :: List.replicate 12 (.advance 0)

/-- The lease runs to second 1000, and the event comes 0.4 s before that. -/
def lastMoment : List (TxCall Request Env) :=
  .start 0 (.acceptLeaseEvent (sampleLease 1)) :: List.replicate 12 (.advance 0) ++
    .env (.tick 999600000) :: .start 0 (.insertEvent sampleKey sampleRow) ::
    List.replicate 4 (.advance 0)

def committed (calls : List (TxCall Request Env)) : Store :=
  (runFrom (system sampleKeys).step start calls).store

theorem job_already_queued :
    (committed sampleCalls).history.map (fun x => (x.subject, x.gate, x.jobs)) =
      [(.inr ((sampleLease 1).address, (sampleLease 1).version), 0, []),
        (.inl sampleKey.2, 1, [sampleKey]),
        (.inr ((sampleLease 2).address, (sampleLease 2).version), 2, [])] ∧
    (committed sampleCalls).history[2]?.map (fun y => (y.now, y.read.events.lookup sampleKey)) =
      some (0, some sampleRow) ∧
    (committed lastMoment).history.map (fun x => (x.subject, x.gate, x.now)) =
      [(.inr ((sampleLease 1).address, (sampleLease 1).version), 0, 0),
        (.inl sampleKey.2, 1, 999600000)] ∧
    (committed lastMoment).db.leases.lookup (sampleLease 1).address =
      some ⟨(sampleLease 1).version, (sampleLease 1).active, true⟩ ∧
    999600000 < (sampleLease 1).version.expiresAt * 1000000 ∧
    (committed lastMoment).db.queue = [] := by
  refine ⟨?_, ?_, ?_, ?_, ?_, ?_⟩ <;> decide +kernel

theorem run_gate_sample :
    let s := (runFrom (system sampleKeys).step start sampleCalls).store
    ∃ y x z, s.history[0]? = some y ∧ s.history[1]? = some x ∧ s.history[2]? = some z ∧
      y.doneAt ≤ x.readAt ∧ sampleKey ∈ s.db.queue ∧
      ∃ row, z.read.events.lookup sampleKey = some row ∧ sampleKey ∈ z.read.queue := by
  intro s
  have hfirst : s.history[0]?.map (fun y => (y.subject, y.community, y.gate)) =
      some (.inr ((sampleLease 1).address, (sampleLease 1).version), sampleKey.1, 0) := by
    decide +kernel
  have hevent : s.history[1]?.map (fun x => (x.subject, x.community, x.gate)) =
      some (.inl sampleKey.2, sampleKey.1, 1) := by decide +kernel
  have hsecond : s.history[2]?.map (fun z => (z.subject, z.community, z.jobs)) =
      some (.inr ((sampleLease 2).address, (sampleLease 2).version), sampleKey.1, []) := by
    decide +kernel
  have hrow : s.history[2]?.map (fun z => (z.now, z.read.events.lookup sampleKey)) =
      some (0, some sampleRow) := by decide +kernel
  obtain ⟨y, hy, hy'⟩ := Option.map_eq_some_iff.1 hfirst
  obtain ⟨x, hx, hx'⟩ := Option.map_eq_some_iff.1 hevent
  obtain ⟨z, hz, hz'⟩ := Option.map_eq_some_iff.1 hsecond
  rw [hz, Option.map_some, Option.some.injEq] at hrow
  simp only [Prod.mk.injEq] at hx' hy' hz' hrow
  have hbefore := run_gate sampleKeys sampleCalls 1 0 x y _ _ _ hx hy hx'.1 hy'.1
    (hx'.2.1.trans hy'.2.1.symm)
  have hafter := run_gate sampleKeys sampleCalls 1 2 x z _ _ _ hx hz hx'.1 hz'.1
    (hx'.2.1.trans hz'.2.1.symm)
  rw [hx'.2.1] at hbefore hafter
  obtain ⟨-, -, hseen, -⟩ := hbefore.resolve_right fun h => by
    rw [hy'.2.2] at h
    exact Nat.not_lt_zero _ h.1
  obtain ⟨-, row, hlookup, hjob⟩ := hafter.resolve_left fun h => by
    rw [hx'.2.2] at h
    exact absurd h.1 (by decide)
  cases hrow.2.symm.trans hlookup
  obtain ⟨hqueued, hqueue⟩ := hjob rfl (by rw [hrow.1]; decide)
  rw [hz'.2.2] at hqueued
  exact ⟨y, x, z, hy, hx, hz, hseen, hqueue, sampleRow, hlookup,
    hqueued.resolve_right List.not_mem_nil⟩

end Colony.Push
