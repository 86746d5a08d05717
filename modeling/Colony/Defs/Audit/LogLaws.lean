import Colony.Defs.Audit.Log

namespace Colony.Audit

open Colony.Core Colony.Data

variable {N : Type} {L : Library N} {rows table : List (Row N)} {row : Row N}
  {community : CommunityId}

def Hashed (L : Library N) (row : Row N) : Prop :=
  ∃ e, rowToAuditEntry row = .ok e ∧ computeHash L e = row.hash

structure IsChain (L : Library N) (rows : List (Row N)) : Prop where
  seqs : rows.map (fun row => row.seq.val) = (List.range rows.length).map fun i : Nat => (i : Int) + 1
  linked : Linked Row.hash Row.prevHash rows
  hashed : ∀ row ∈ rows, Hashed L row

structure Extends (L : Library N) (rows : List (Row N)) (row : Row N) : Prop where
  seq : row.seq.val = rows.length + 1
  prevHash : row.prevHash = tip Row.hash rows
  hashed : Hashed L row

theorem isChain_nil : IsChain L ([] : List (Row N)) := ⟨rfl, linked_nil, by simp⟩

theorem isChain_concat (h : IsChain L rows) (hrow : Extends L rows row) :
    IsChain L (rows ++ [row]) where
  seqs := by
    rw [List.map_append, h.seqs, List.length_append, List.length_singleton, List.range_succ,
      List.map_append, List.map_singleton, List.map_singleton, hrow.seq]
  linked := linked_concat.2 ⟨h.linked, hrow.prevHash⟩
  hashed := by
    intro r hr
    rcases List.mem_append.1 hr with hr | hr
    · exact h.hashed r hr
    · exact List.mem_singleton.1 hr ▸ hrow.hashed

theorem IsChain.increasing (h : IsChain L rows) :
    rows.Pairwise fun row row' => row.seq.val < row'.seq.val := by
  have hrange : ((List.range rows.length).map fun i : Nat => (i : Int) + 1).Pairwise (· < ·) :=
    List.pairwise_map.2 (List.pairwise_lt_range.imp fun h => by omega)
  rw [← h.seqs] at hrange
  exact List.pairwise_map.1 hrange

theorem argmax_eq_getLast? {α : Type} {f : α → Int} {l : List α}
    (h : l.Pairwise fun a b => f a < f b) :
    @List.argmax _ _ Int.instLinearOrder.toPreorder _ f l = l.getLast? := by
  induction l using List.reverseRecOn with
  | nil => rfl
  | append_singleton l a ih =>
    rw [List.pairwise_append] at h
    rw [List.argmax_concat, ih h.1, List.getLast?_concat]
    cases hl : l.getLast? with
    | none => rfl
    | some b => exact if_pos (h.2.2 b (List.mem_of_getLast? hl) a (by simp))

theorem IsChain.headOf (h : IsChain L (rowsOf table community)) :
    headOf table community = (rowsOf table community).getLast? :=
  argmax_eq_getLast? h.increasing

theorem IsChain.last_seq (h : IsChain L rows) :
    ((rows.getLast?.map fun row => row.seq.val).getD 0) = rows.length := by
  have hlast := congrArg List.getLast? h.seqs
  rw [List.getLast?_map, List.getLast?_map, List.getLast?_range] at hlast
  rw [hlast]
  split
  · next hzero => rw [hzero]; rfl
  · simp only [Option.map_some, Option.getD_some]
    omega

theorem rowToAuditEntry_iff {e : AuditEntry N} : rowToAuditEntry row = .ok e ↔
    ∃ action detail, AuditAction.fromStr row.action = some action ∧ row.detail = some detail ∧
      e = ⟨row.communityId, row.seq, row.hash, row.prevHash, action, row.actorPubkey,
        row.objectId, detail, row.createdAt * 1000⟩ := by
  unfold rowToAuditEntry
  cases AuditAction.fromStr row.action with
  | none => simp
  | some action =>
    cases row.detail with
    | none => simp
    | some detail => simp [eq_comm]

theorem nextRow_extends {new : NewAuditEntry N} {now : Int} (h : IsChain L rows)
    (hnext : nextRow L rows.getLast? new now = some row) :
    row.communityId = new.communityId ∧ Extends L rows row := by
  simp only [nextRow] at hnext
  split at hnext
  · cases hnext
    refine ⟨rfl, ?_, rfl, ?_⟩
    · rw [← h.last_seq]
    · refine ⟨_, rowToAuditEntry_iff.2
        ⟨new.action, new.detail, AuditAction.fromStr_asStr _, rfl, rfl⟩, ?_⟩
      -- the stored microseconds are read back as the entry's nanoseconds
      have htime : toStoragePrecision now / 1000 * 1000 = toStoragePrecision now := by
        unfold toStoragePrecision
        omega
      simp only [computeHash, preimage, htime]
  · cases hnext

theorem verifyRows_infix {before mid after : List (Row N)} {expected : Option Bytes}
    (h : IsChain L (before ++ mid ++ after))
    (hexpected : ∀ x ∈ expected, tip Row.hash before = some x) :
    verifyRows L expected mid = .ok true := by
  induction mid generalizing before expected with
  | nil => rfl
  | cons row mid ih =>
    obtain ⟨e, he, hhash⟩ := h.hashed row (by simp)
    obtain ⟨action, detail, -, -, rfl⟩ := rowToAuditEntry_iff.1 he
    have hprev : row.prevHash = tip Row.hash before :=
      h.linked before row (mid ++ after) (by simp)
    have hany : (expected.any fun x => row.prevHash ≠ some x) = false := by
      cases expected with
      | none => rfl
      | some x => simp [hprev, hexpected x rfl]
    simp only [verifyRows, he, hany, Bool.false_eq_true, if_false, hhash, ne_eq,
      not_true_eq_false]
    have hrest : before ++ row :: mid ++ after = before ++ [row] ++ mid ++ after := by simp
    exact ih (hrest ▸ h) (by simp)

theorem eq_filter_append {α : Type} {f : α → Int} {l : List α}
    (h : l.Pairwise fun a b => f a < f b) (bound : Int) :
    l = l.filter (fun a => f a < bound) ++ l.filter (fun a => bound ≤ f a) := by
  induction l with
  | nil => rfl
  | cons a l ih =>
    obtain ⟨ha, hl⟩ := List.pairwise_cons.1 h
    by_cases hlt : f a < bound
    · have hge : ¬ bound ≤ f a := by omega
      simp only [List.filter_cons, hlt, hge, decide_true, decide_false, if_true, List.cons_append,
        Bool.false_eq_true, if_false, List.cons.injEq, true_and]
      exact ih hl
    · have hge : bound ≤ f a := by omega
      have hnone : l.filter (fun a => f a < bound) = [] := by
        simp only [List.filter_eq_nil_iff, decide_eq_true_eq]
        intro b hb
        have := ha b hb
        omega
      have hall : l.filter (fun a => bound ≤ f a) = l := by
        simp only [List.filter_eq_self, decide_eq_true_eq]
        intro b hb
        have := ha b hb
        omega
      simp [hlt, hge, hnone, hall]

theorem rowsBetween_eq (h : IsChain L (rowsOf table community)) (fromSeq toSeq : Int) :
    rowsBetween table community fromSeq toSeq =
      (rowsOf table community).filter fun row => fromSeq ≤ row.seq.val ∧ row.seq.val ≤ toSeq :=
  List.Pairwise.insertionSort_eq ((h.increasing.filter _).imp fun h => le_of_lt h)

theorem rowsBetween_infix (h : IsChain L (rowsOf table community)) (fromSeq toSeq : Int) :
    ∃ before after,
      rowsOf table community = before ++ rowsBetween table community fromSeq toSeq ++ after := by
  have hlow := eq_filter_append h.increasing fromSeq
  rw [eq_filter_append (h.increasing.filter fun row => decide (fromSeq ≤ row.seq.val)) (toSeq + 1),
    ← List.append_assoc, List.filter_filter] at hlow
  have hmid : ((rowsOf table community).filter fun row =>
      decide (row.seq.val < toSeq + 1) && decide (fromSeq ≤ row.seq.val)) =
        rowsBetween table community fromSeq toSeq := by
    rw [rowsBetween_eq h]
    refine List.filter_congr fun row _ => ?_
    simp only [Bool.decide_and, Bool.and_comm, Int.lt_add_one_iff]
  rw [hmid] at hlow
  exact ⟨_, _, hlow⟩

theorem verifyChain_of_chain (h : IsChain L (rowsOf table community)) {fromSeq toSeq : Int}
    (hrange : ∃ row ∈ rowsOf table community, fromSeq ≤ row.seq.val ∧ row.seq.val ≤ toSeq) :
    verifyChain L table community fromSeq toSeq = .ok true := by
  obtain ⟨before, after, hrows⟩ := rowsBetween_infix h fromSeq toSeq
  rw [hrows] at h
  obtain ⟨row, hrow, hlow, hhigh⟩ := hrange
  unfold verifyChain
  split
  · next hnil =>
    have hmem : row ∈ rowsBetween table community fromSeq toSeq := by
      rw [rowsBetween, List.mem_insertionSort, List.mem_filter]
      exact ⟨hrow, by simp [hlow, hhigh]⟩
    rw [hnil] at hmem
    cases hmem
  · exact verifyRows_infix h nofun

def CollisionFree (L : Library N) (table : List (Row N)) : Prop :=
  ∀ row ∈ table, ∀ row' ∈ table, ∀ e e', rowToAuditEntry row = .ok e →
    rowToAuditEntry row' = .ok e' → computeHash L e = computeHash L e' →
      preimage L e = preimage L e'

theorem bigEndian_inj {count n m : Nat} (h : bigEndian count n = bigEndian count m) :
    n % 256 ^ count = m % 256 ^ count := by
  refine digits_inj (by decide) (fun i hi j hj hij => ?_) h
  have hnat := congrArg UInt8.toNat hij
  rwa [UInt8.toNat_ofNat_of_lt' hi, UInt8.toNat_ofNat_of_lt' hj] at hnat

theorem communityId_of_preimage {e e' : AuditEntry N} (h : preimage L e = preimage L e') :
    e.communityId = e'.communityId := by
  have hbytes := bigEndian_inj (List.append_inj h (by simp [bigEndian])).1
  have he := e.communityId.bits.isLt
  have he' := e'.communityId.bits.isLt
  rw [Nat.mod_eq_of_lt (by omega), Nat.mod_eq_of_lt (by omega)] at hbytes
  exact congrArg Uuid.mk (BitVec.eq_of_toNat_eq hbytes)

theorem IsChain.predecessor {prev : Bytes} (h : IsChain L rows) (hrow : row ∈ rows)
    (hprev : row.prevHash = some prev) : ∃ before ∈ rows, before.hash = prev := by
  obtain ⟨before, after, rfl⟩ := List.append_of_mem hrow
  have htip := h.linked before row after rfl
  rw [hprev] at htip
  obtain ⟨last, hlast, rfl⟩ := Option.map_eq_some_iff.1 htip.symm
  exact ⟨last, List.mem_append_left _ (List.mem_of_getLast? hlast), rfl⟩

theorem Hashed.same_community {row' : Row N} (hrow : Hashed L row) (hrow' : Hashed L row')
    (hfree : CollisionFree L table) (hmem : row ∈ table) (hmem' : row' ∈ table)
    (h : row.hash = row'.hash) : row.communityId = row'.communityId := by
  obtain ⟨e, he, hhash⟩ := hrow
  obtain ⟨e', he', hhash'⟩ := hrow'
  have heq := communityId_of_preimage
    (hfree row hmem row' hmem' e e' he he' (by rw [hhash, hhash', h]))
  obtain ⟨_, _, -, -, rfl⟩ := rowToAuditEntry_iff.1 he
  obtain ⟨_, _, -, -, rfl⟩ := rowToAuditEntry_iff.1 he'
  exact heq

def Session.Works (L : Library N) (rows : List (Row N)) (x : Session N) : Prop :=
  match x.phase with
  | .idle | .ended _ => True
  | .locked new | .begun new => L.lockKey new.communityId ∈ x.held
  | .headRead new head =>
    L.lockKey new.communityId ∈ x.held ∧ head = headOf rows new.communityId
  | .inserted new row =>
    L.lockKey new.communityId ∈ x.held ∧ row.communityId = new.communityId ∧
      Extends L (rowsOf rows new.communityId) row

def Server.Alone (s : Server N) (sid : Nat) (key : Int) : Prop :=
  ∀ sid' y, sid' ≠ sid → s.sessions.lookup sid' = some y → key ∉ y.held

structure Orderly (L : Library N) (s : Server N) : Prop where
  chains : ∀ community, IsChain L (rowsOf s.rows community)
  alone : ∀ sid x, s.sessions.lookup sid = some x → ∀ key ∈ x.held, s.Alone sid key
  works : ∀ sid x, s.sessions.lookup sid = some x → x.Works L s.rows

variable {s : Server N} {sid : Nat} {x : Session N}

theorem Server.alone_of_others {key : Int}
    (h : ¬ (s.others sid).any (fun y => key ∈ y.held) = true) : s.Alone sid key := by
  intro sid' y hne hy hkey
  refine h (List.any_eq_true.2 ⟨y, List.mem_map.2 ⟨⟨sid', y⟩, ?_, rfl⟩, by simpa using hkey⟩)
  rw [← Dict.mem_lookup_entries, Dict.lookup_erase_if, if_neg hne]
  exact hy

theorem rowsOf_concat (rows : List (Row N)) (row : Row N) (community : CommunityId) :
    rowsOf (rows ++ [row]) community =
      rowsOf rows community ++ if row.communityId = community then [row] else [] := by
  simp [rowsOf, List.filter_append, List.filter_cons]

theorem Session.Works.concat (h : x.Works L rows)
    (hkey : ∀ new, L.lockKey new ∈ x.held → row.communityId ≠ new) :
    x.Works L (rows ++ [row]) := by
  obtain ⟨held, phase⟩ := x
  have hsame (new : CommunityId) (hnew : L.lockKey new ∈ held) :
      rowsOf (rows ++ [row]) new = rowsOf rows new := by
    rw [rowsOf_concat, if_neg (hkey new hnew), List.append_nil]
  cases phase with
  | idle => trivial
  | ended community => trivial
  | locked new => exact h
  | begun new => exact h
  | headRead new head =>
    refine ⟨h.1, ?_⟩
    rw [headOf, hsame _ h.1]
    exact h.2
  | inserted new row' =>
    refine ⟨h.1, h.2.1, ?_⟩
    rw [hsame _ h.1]
    exact h.2.2

theorem Orderly.put (h : Orderly L s) (halone : ∀ key ∈ x.held, s.Alone sid key)
    (hworks : x.Works L s.rows) : Orderly L (s.put sid x) := by
  refine ⟨h.chains, fun sid₁ y hy key hkey sid₂ z hne hz => ?_, fun sid' y hy => ?_⟩
  · rw [Server.put, Dict.lookup_insert_if] at hy hz
    split at hy
    · next h₁ =>
      cases hy
      subst h₁
      rw [if_neg hne] at hz
      exact halone key hkey sid₂ z hne hz
    · next h₁ =>
      split at hz
      · next h₂ =>
        cases hz
        subst h₂
        exact fun hx => halone key hx sid₁ y h₁ hy hkey
      · exact h.alone sid₁ y hy key hkey sid₂ z hne hz
  · rw [Server.put, Dict.lookup_insert_if] at hy
    split at hy
    · cases hy
      exact hworks
    · exact h.works sid' y hy

theorem Orderly.advance {held : List Int} {phase phase' : Phase N} (h : Orderly L s)
    (hx : s.sessions.lookup sid = some ⟨held, phase⟩) (hworks : Session.Works L s.rows ⟨held, phase'⟩) :
    Orderly L (s.put sid ⟨held, phase'⟩) :=
  h.put (fun key hkey => h.alone sid _ hx key hkey) hworks

theorem Orderly.close (h : Orderly L s) (sid : Nat) :
    Orderly L { s with sessions := s.sessions.erase sid } := by
  have hkept {sid' : Nat} {y : Session N} (hy : (s.sessions.erase sid).lookup sid' = some y) :
      s.sessions.lookup sid' = some y := by
    rw [Dict.lookup_erase_if] at hy
    split at hy
    · cases hy
    · exact hy
  exact ⟨h.chains, fun sid₁ y hy key hkey sid₂ z hne hz =>
    h.alone sid₁ y (hkept hy) key hkey sid₂ z hne (hkept hz), fun sid' y hy => h.works sid' y (hkept hy)⟩

theorem Orderly.commit {held : List Int} {new : NewAuditEntry N} (h : Orderly L s)
    (hx : s.sessions.lookup sid = some ⟨held, .inserted new row⟩) :
    Orderly L { s.put sid ⟨held, .ended new.communityId⟩ with rows := s.rows ++ [row] } := by
  obtain ⟨hkey, hcommunity, hextends⟩ := h.works sid _ hx
  have hput : Orderly L (s.put sid ⟨held, .ended new.communityId⟩) := h.advance hx trivial
  refine ⟨fun community => ?_, hput.alone, fun sid' y hy => ?_⟩
  · rw [rowsOf_concat]
    split
    · next heq =>
      rw [← heq, hcommunity]
      exact isChain_concat (h.chains _) hextends
    · rw [List.append_nil]
      exact h.chains community
  · by_cases hsid : sid' = sid
    · subst hsid
      have hy' : y = ⟨held, .ended new.communityId⟩ := by
        simpa [Server.put] using hy.symm
      rw [hy']
      trivial
    · refine (hput.works sid' y hy).concat fun other hother heq => ?_
      rw [Server.put, Dict.lookup_insert_if, if_neg hsid] at hy
      rw [← heq, hcommunity] at hother
      exact h.alone sid _ hx _ hkey sid' y hsid hy hother

theorem Orderly.step (h : Orderly L s) (call : Call N) : Orderly L (s.step L call) := by
  cases call with
  | connect sid =>
    simp only [Server.step]
    split
    · exact h
    · exact h.put (by simp) trivial
  | lock sid new =>
    simp only [Server.step]
    split
    · next held hx =>
      split
      · exact h
      · next hfree =>
        refine h.put (fun key hkey => ?_) (List.mem_cons_self ..)
        rcases List.mem_cons.1 hkey with rfl | hkey
        · exact Server.alone_of_others hfree
        · exact h.alone sid _ hx key hkey
    · exact h
  | beginTx sid =>
    simp only [Server.step]
    split
    · next held new hx =>
      have hkey := h.works sid _ hx
      exact h.advance hx hkey
    · exact h
  | readHead sid =>
    simp only [Server.step]
    split
    · next held new hx => exact h.advance hx ⟨h.works sid _ hx, rfl⟩
    · exact h
  | insert sid now =>
    simp only [Server.step]
    split
    · next held new head hx =>
      obtain ⟨hkey, rfl⟩ := h.works sid _ hx
      split
      · exact h.advance hx trivial
      · next row hnext =>
        rw [(h.chains _).headOf] at hnext
        split
        · exact h.advance hx trivial
        · split
          · exact h
          · exact h.advance hx ⟨hkey, nextRow_extends (h.chains _) hnext⟩
    · exact h
  | commit sid =>
    simp only [Server.step]
    split
    · next held new row hx => exact h.commit hx
    · exact h
  | fail sid =>
    simp only [Server.step]
    split
    · next hx => exact h.advance hx trivial
    · next hx => exact h.advance hx trivial
    · next hx => exact h.advance hx trivial
    · next hx => exact h.advance hx trivial
    · exact h
  | unlock sid answered =>
    simp only [Server.step]
    split
    · next held community hx =>
      refine h.put (fun key hkey => h.alone sid _ hx key ?_) trivial
      split at hkey
      · exact List.mem_of_mem_erase hkey
      · exact hkey
    · exact h
  | cancel sid =>
    simp only [Server.step]
    split
    · next held phase hx => exact h.advance hx trivial
    · exact h
  | close sid => exact h.close sid

theorem orderly_start : Orderly L Server.start :=
  ⟨fun _ => isChain_nil, by simp [Server.start], by simp [Server.start]⟩

theorem run_orderly (calls : List (Call N)) :
    Orderly L (runFrom (Server.step L) Server.start calls) := by
  induction calls using List.reverseRecOn with
  | nil => exact orderly_start
  | append_singleton calls call ih =>
    rw [runFrom_append]
    exact ih.step call

/-- After any interleaving of calls, a community's rows are numbered without a gap, each names
the hash of the one before it, no row names another community's, and every range that contains
a row verifies. -/
theorem run_chains (calls : List (Call N)) (community : CommunityId) :
    let table := (runFrom (Server.step L) Server.start calls).rows
    let rows := rowsOf table community
    (rows.map (fun row => row.seq.val) = (List.range rows.length).map fun i : Nat => (i : Int) + 1) ∧
    (∀ before row after, rows = before ++ row :: after →
      row.prevHash = before.getLast?.map Row.hash) ∧
    (CollisionFree L table → ∀ row ∈ rows, ∀ row' ∈ table, row'.communityId ≠ community →
      row.prevHash ≠ some row'.hash) ∧
    ∀ fromSeq toSeq, (∃ row ∈ rows, fromSeq ≤ row.seq.val ∧ row.seq.val ≤ toSeq) →
      verifyChain L table community fromSeq toSeq = .ok true := by
  intro table rows
  have h := run_orderly (L := L) calls
  refine ⟨(h.chains community).seqs, (h.chains community).linked, ?_, fun _ _ hrange =>
    verifyChain_of_chain (h.chains community) hrange⟩
  intro hfree row hrow row' hrow' hother hprev
  obtain ⟨last, hlast, hhash⟩ := (h.chains community).predecessor hrow hprev
  have hmem' : row' ∈ rowsOf table row'.communityId := List.mem_filter.2 ⟨hrow', by simp⟩
  have hsame : last.communityId = row'.communityId :=
    ((h.chains community).hashed last hlast).same_community ((h.chains _).hashed row' hmem') hfree
      (List.mem_of_mem_filter hlast) hrow' hhash
  have hcommunity : last.communityId = community := by simpa using (List.mem_filter.1 hlast).2
  exact hother (hsame.symm.trans hcommunity)

end Colony.Audit
