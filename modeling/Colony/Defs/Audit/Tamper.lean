import Colony.Defs.Audit.LogLaws

namespace Colony.Audit

open Colony.Core Colony.Data

variable {N : Type} {L : Library N} {rows table logged : List (Row N)} {row row' : Row N}
  {community : CommunityId}

theorem utf8_inj {s t : String} (h : utf8 s = utf8 t) : s = t :=
  String.toByteArray_inj.1 (ByteArray.ext (Array.toList_inj.1 h))

theorem Bigint.toBeBytes_inj {n m : Bigint} (h : n.toBeBytes = m.toBeBytes) : n = m := by
  have hbytes := bigEndian_inj h
  obtain ⟨n, hn⟩ := n
  obtain ⟨m, hm⟩ := m
  have hn' : (n % 2 ^ 64).toNat < 256 ^ 8 := by omega
  have hm' : (m % 2 ^ 64).toNat < 256 ^ 8 := by omega
  rw [Nat.mod_eq_of_lt hn', Nat.mod_eq_of_lt hm'] at hbytes
  refine Subtype.ext ?_
  simp only at hbytes ⊢
  omega

theorem AuditAction.asStr_bytes (a : AuditAction) :
    (∀ b ∈ utf8 a.asStr, 95 ≤ b) ∧ ∃ b l, utf8 a.asStr = b :: l ∧ 97 ≤ b := by
  cases a <;> exact ⟨by decide +kernel, _, _, by rfl, by decide⟩

theorem tagged_append_inj {o o' : Option Bytes} {r r' : Bytes}
    (hlength : o.map List.length = o'.map List.length) (h : tagged o ++ r = tagged o' ++ r') :
    o = o' ∧ r = r' := by
  match o, o' with
  | none, none => exact ⟨rfl, (List.cons.inj h).2⟩
  | some b, some b' =>
    obtain ⟨rfl, rfl⟩ := List.append_inj (List.cons.inj h).2 (Option.some.inj hlength)
    exact ⟨rfl, rfl⟩

def Row.shape (row : Row N) : Option Nat × Option Nat × Option Nat :=
  (row.actorPubkey.map List.length, (row.objectId.map utf8).map List.length,
    row.prevHash.map List.length)

def Row.fields (row : Row N) : Row N := { row with hash := [] }

theorem seq_of_preimage {e e' : AuditEntry N} (h : preimage L e = preimage L e') :
    e.seq = e'.seq := by
  obtain ⟨-, h⟩ := List.append_inj h (by simp [bigEndian])
  exact Bigint.toBeBytes_inj (List.append_inj h (by simp [Bigint.toBeBytes, bigEndian])).1

theorem canonicalJson_inj {d d' : Detail N} (h : canonicalJson L d = canonicalJson L d') :
    d = d' := by
  obtain ⟨v, hv⟩ := d
  obtain ⟨v', hv'⟩ := d'
  obtain rfl : v = v' := Json.canonical_inj L.numbers hv hv' (String.ofList_injective h)
  rfl

theorem getD_append_inj {o o' : Option Bytes} {r r' default : Bytes}
    (hlength : o.map List.length = o'.map List.length)
    (h : r ++ o.getD default = r' ++ o'.getD default) : r = r' ∧ o = o' := by
  match o, o' with
  | none, none => exact ⟨List.append_cancel_right h, rfl⟩
  | some b, some b' =>
    obtain ⟨rfl, hb⟩ := List.append_inj' h (Option.some.inj hlength)
    exact ⟨rfl, congrArg some hb⟩

theorem fields_of_preimage {e e' : AuditEntry N} (he : rowToAuditEntry row = .ok e)
    (he' : rowToAuditEntry row' = .ok e') (hshape : row.shape = row'.shape)
    (h : preimage L e = preimage L e') : row.fields = row'.fields := by
  obtain ⟨action, detail, haction, hdetail, rfl⟩ := rowToAuditEntry_iff.1 he
  obtain ⟨action', detail', haction', hdetail', rfl⟩ := rowToAuditEntry_iff.1 he'
  simp only [Row.shape, Prod.mk.injEq] at hshape
  obtain ⟨hactor, hobject, hprev⟩ := hshape
  have hcommunity := communityId_of_preimage h
  simp only [preimage] at h hcommunity
  obtain ⟨-, h⟩ := List.append_inj h (by simp [bigEndian])
  obtain ⟨hseq, h⟩ := List.append_inj h (by simp [Bigint.toBeBytes, bigEndian])
  -- the time has no lowercase letter, and the action starts with one
  obtain ⟨htime, h⟩ := append_inj_of_class (L.rfc3339_ascii _) (L.rfc3339_ascii _)
    (by obtain ⟨b, l, hb, hle⟩ := action.asStr_bytes.2; simpa [hb] using hle)
    (by obtain ⟨b, l, hb, hle⟩ := action'.asStr_bytes.2; simpa [hb] using hle) h
  obtain ⟨hact, h⟩ := append_inj_of_class action.asStr_bytes.1 action'.asStr_bytes.1
    (by cases row.actorPubkey <;> simp [tagged]) (by cases row'.actorPubkey <;> simp [tagged]) h
  obtain ⟨hactor, h⟩ := tagged_append_inj hactor h
  obtain ⟨hobject, h⟩ := tagged_append_inj hobject h
  obtain ⟨hjson, hprev⟩ := getD_append_inj hprev h
  have htime' := L.rfc3339_inj (utf8_inj htime)
  have hcreated : row.createdAt = row'.createdAt := by
    simp only [toStoragePrecision] at htime'
    omega
  have hobject' : row.objectId = row'.objectId :=
    Option.map_injective (fun _ _ => utf8_inj) hobject
  have hactions : row.action = row'.action := by
    rw [← AuditAction.asStr_of_fromStr haction, ← AuditAction.asStr_of_fromStr haction',
      utf8_inj hact]
  have hdetails : row.detail = row'.detail := by
    rw [hdetail, hdetail', canonicalJson_inj (utf8_inj hjson)]
  simp only [Row.fields, hcommunity, Bigint.toBeBytes_inj hseq, hprev, hactions, hactor, hobject',
    hdetails, hcreated]

theorem verifyRows_ok {expected : Option Bytes} (h : verifyRows L expected rows = .ok true) :
    (∀ row ∈ rows, Hashed L row) ∧
      ∀ before row after, rows = before ++ row :: after →
        ∀ x ∈ (tip Row.hash before).or expected, row.prevHash = some x := by
  induction rows generalizing expected with
  | nil => simp
  | cons row rows ih =>
    rw [verifyRows] at h
    cases he : rowToAuditEntry row with
    | error err => simp [he] at h
    | ok e =>
      obtain ⟨action, detail, -, -, rfl⟩ := rowToAuditEntry_iff.1 he
      simp only [he] at h
      split at h
      · cases h
      · next hany =>
        split at h
        · cases h
        · next hhash =>
          obtain ⟨hhashed, hlinks⟩ := ih h
          refine ⟨List.forall_mem_cons.2 ⟨⟨_, he, not_not.1 hhash⟩, hhashed⟩, ?_⟩
          intro before row' after hrows x hx
          cases before with
          | nil =>
            obtain ⟨rfl, -⟩ := List.cons.inj hrows
            cases expected with
            | none => cases hx
            | some y =>
              cases hx
              simpa using hany
          | cons first before =>
            obtain ⟨rfl, hrest⟩ := List.cons.inj hrows
            refine hlinks before row' after hrest x ?_
            cases before using List.reverseRecOn with
            | nil => simpa [tip] using hx
            | append_singleton before last =>
              rw [← List.cons_append, tip_concat] at hx
              rw [tip_concat]
              exact hx

def Exact (logged table : List (Row N)) (community : CommunityId) (fromSeq toSeq : Int) : Prop :=
  ∃ k ≤ toSeq, rowsBetween table community fromSeq toSeq = rowsBetween logged community fromSeq k

/-- What the chain alone does not show: that the first row of the range is still there, that
the last hash is a logged one, and that the lengths left out of the preimage are the logged
ones. -/
structure Kept (logged table : List (Row N)) (community : CommunityId) (fromSeq toSeq : Int) :
    Prop where
  first : (rowsBetween table community fromSeq toSeq).head?.map Row.seq =
    (rowsBetween logged community fromSeq toSeq).head?.map Row.seq
  last : ∀ row ∈ (rowsBetween table community fromSeq toSeq).getLast?,
    ∃ row' ∈ rowsOf logged community, row'.seq = row.seq ∧ row'.hash = row.hash
  shapes : ∀ row ∈ rowsBetween table community fromSeq toSeq,
    ∀ row' ∈ rowsOf logged community, row'.seq = row.seq → row.shape = row'.shape

theorem verifyChain_ok {fromSeq toSeq : Int}
    (h : verifyChain L table community fromSeq toSeq = .ok true) :
    rowsBetween table community fromSeq toSeq ≠ [] ∧
      verifyRows L none (rowsBetween table community fromSeq toSeq) = .ok true := by
  unfold verifyChain at h
  split at h
  · cases h
  · next hne => exact ⟨hne, h⟩

theorem mem_rowsBetween {fromSeq toSeq : Int} : row ∈ rowsBetween table community fromSeq toSeq ↔
    row ∈ rowsOf table community ∧ fromSeq ≤ row.seq.val ∧ row.seq.val ≤ toSeq := by
  simp [rowsBetween, List.mem_insertionSort, List.mem_filter]

theorem rowsOf_subset : ∀ row ∈ rowsOf table community, row ∈ table :=
  fun _ h => List.mem_of_mem_filter h

theorem IsChain.eq_of_seq (h : IsChain L rows) (hrow : row ∈ rows) (hrow' : row' ∈ rows)
    (hseq : row.seq = row'.seq) : row = row' := by
  have hnodup : (rows.map fun row => row.seq.val).Nodup :=
    List.pairwise_map.2 (h.increasing.imp fun hlt => ne_of_lt hlt)
  exact List.inj_on_of_nodup_map hnodup hrow hrow' (congrArg Subtype.val hseq)

theorem rowsBetween_front (h : IsChain L (rowsOf table community)) {fromSeq k toSeq : Int}
    (hk : k ≤ toSeq) : ∃ rest, rowsBetween table community fromSeq toSeq =
      rowsBetween table community fromSeq k ++ rest := by
  refine ⟨(rowsBetween table community fromSeq toSeq).filter fun row => k + 1 ≤ row.seq.val, ?_⟩
  have hsplit := eq_filter_append
    (h.increasing.filter fun row => decide (fromSeq ≤ row.seq.val ∧ row.seq.val ≤ toSeq)) (k + 1)
  rw [← rowsBetween_eq h] at hsplit
  refine hsplit.trans (congrArg (· ++ _) ?_)
  rw [rowsBetween_eq h, rowsBetween_eq h, List.filter_filter]
  refine List.filter_congr fun row _ => ?_
  rw [← Bool.decide_and, decide_eq_decide]
  omega

theorem Exact.kept {fromSeq toSeq : Int} (hchain : IsChain L (rowsOf logged community))
    (hne : rowsBetween table community fromSeq toSeq ≠ [])
    (h : Exact logged table community fromSeq toSeq) :
    Kept logged table community fromSeq toSeq := by
  obtain ⟨k, hk, hrows⟩ := h
  have hmem {row : Row N} (hrow : row ∈ rowsBetween table community fromSeq toSeq) :
      row ∈ rowsOf logged community := by
    rw [hrows] at hrow
    exact (mem_rowsBetween.1 hrow).1
  refine ⟨?_, fun row hrow => ⟨row, hmem (List.mem_of_getLast? hrow), rfl, rfl⟩,
    fun row hrow row' hrow' hseq => ?_⟩
  · obtain ⟨rest, hrest⟩ := @rowsBetween_front _ _ _ _ hchain fromSeq _ _ hk
    rw [hrest, hrows, List.head?_append_of_ne_nil _ (hrows ▸ hne)]
  · rw [hchain.eq_of_seq (hmem hrow) hrow' hseq.symm]

theorem eq_of_hash (hrow : Hashed L row) (hrow' : Hashed L row')
    (hfree : CollisionFree L table) (hmem : row ∈ table) (hmem' : row' ∈ table)
    (hshape : row'.seq = row.seq → row.shape = row'.shape) (h : row.hash = row'.hash) :
    row = row' := by
  obtain ⟨e, he, hhash⟩ := hrow
  obtain ⟨e', he', hhash'⟩ := hrow'
  have hpre := hfree row hmem row' hmem' e e' he he' (by rw [hhash, hhash', h])
  have hseq := seq_of_preimage hpre
  obtain ⟨_, _, -, -, rfl⟩ := rowToAuditEntry_iff.1 he
  obtain ⟨_, _, -, -, rfl⟩ := rowToAuditEntry_iff.1 he'
  have hfields := fields_of_preimage he he' (hshape hseq.symm) hpre
  cases row
  cases row'
  simp only [Row.fields, Row.mk.injEq, true_and] at hfields h ⊢
  simp only [hfields, h, and_self]

theorem Kept.first_le {fromSeq toSeq : Int} {first : Row N}
    (hchain : IsChain L (rowsOf logged community))
    (h : Kept logged table community fromSeq toSeq) (hrow : row ∈ rowsOf logged community)
    (hlow : fromSeq ≤ row.seq.val) (hhigh : row.seq.val ≤ toSeq)
    (hfirst : (rowsBetween table community fromSeq toSeq).head? = some first) :
    first.seq.val ≤ row.seq.val := by
  have hmem : row ∈ rowsBetween logged community fromSeq toSeq :=
    mem_rowsBetween.2 ⟨hrow, hlow, hhigh⟩
  obtain ⟨start, rest, hstart⟩ := List.exists_cons_of_ne_nil (List.ne_nil_of_mem hmem)
  have hseq := h.first
  rw [hfirst, hstart, List.head?_cons, Option.map_some, Option.map_some,
    Option.some.injEq] at hseq
  have hsorted := hchain.increasing.filter
    fun row => decide (fromSeq ≤ row.seq.val ∧ row.seq.val ≤ toSeq)
  rw [← rowsBetween_eq hchain, hstart, List.pairwise_cons] at hsorted
  rw [hseq]
  rw [hstart] at hmem
  rcases List.mem_cons.1 hmem with rfl | hmem
  · exact le_rfl
  · exact le_of_lt (hsorted.1 row hmem)

theorem filter_segment {α : Type} {f : α → Int} {earlier seg after : List α} {low high : Int}
    (hearlier : ∀ a ∈ earlier, ¬ (low ≤ f a ∧ f a ≤ high))
    (hseg : ∀ a ∈ seg, low ≤ f a ∧ f a ≤ high)
    (hafter : ∀ a ∈ after, ¬ (low ≤ f a ∧ f a ≤ high)) :
    (earlier ++ seg ++ after).filter (fun a => low ≤ f a ∧ f a ≤ high) = seg := by
  have h₁ := List.filter_eq_nil_iff.2 fun a ha => mt of_decide_eq_true (hearlier a ha)
  have h₂ := List.filter_eq_self.2 fun a ha => decide_eq_true (hseg a ha)
  have h₃ := List.filter_eq_nil_iff.2 fun a ha => mt of_decide_eq_true (hafter a ha)
  rw [List.filter_append, List.filter_append, h₁, h₂, h₃, List.nil_append, List.append_nil]

theorem Kept.exact {fromSeq toSeq : Int} (hchain : IsChain L (rowsOf logged community))
    (hfree : CollisionFree L (logged ++ table))
    (hverify : verifyChain L table community fromSeq toSeq = .ok true)
    (h : Kept logged table community fromSeq toSeq) :
    Exact logged table community fromSeq toSeq := by
  obtain ⟨hne, hrows⟩ := verifyChain_ok hverify
  obtain ⟨hhashed, hlinks⟩ := verifyRows_ok hrows
  obtain ⟨init, last, hsplit⟩ := List.eq_nil_or_concat _ |>.resolve_left hne
  rw [List.concat_eq_append] at hsplit
  have hsame : ∀ row ∈ rowsBetween table community fromSeq toSeq,
      ∀ row' ∈ rowsOf logged community, row.hash = row'.hash → row = row' :=
    fun row hrow row' hrow' hhash =>
      eq_of_hash (hhashed row hrow) (hchain.hashed row' hrow') hfree
        (List.mem_append_right _ (rowsOf_subset row (mem_rowsBetween.1 hrow).1))
        (List.mem_append_left _ (rowsOf_subset row' hrow')) (h.shapes row hrow row' hrow') hhash
  have hlast : last ∈ rowsBetween table community fromSeq toSeq := by simp [hsplit]
  obtain ⟨last', hlast', -, hhash⟩ := h.last last (by simp [hsplit])
  obtain rfl := hsame last hlast last' hlast' hhash.symm
  -- from the last row the hashes lead back through the logged chain
  obtain ⟨before, after, hlogged⟩ := List.append_of_mem hlast'
  obtain ⟨earlier, rfl⟩ : init <:+ before :=
    hchain.linked.suffix hlogged
      (fun before row after hsplit' d hd =>
        hlinks before row after (hsplit.trans hsplit') d (by rw [Option.or_none]; exact hd))
      (fun row hrow => hsame row (by simp [hsplit, hrow]))
  have hto := (mem_rowsBetween.1 hlast).2.2
  have hseg : rowsOf logged community = earlier ++ (init ++ [last]) ++ after := by
    simpa using hlogged
  have hincreasing := hchain.increasing
  rw [hseg, List.pairwise_append, List.pairwise_append] at hincreasing
  obtain ⟨⟨-, hwithin, hearlier⟩, -, hafter⟩ := hincreasing
  refine ⟨last.seq.val, hto, ?_⟩
  rw [rowsBetween_eq hchain, hseg, hsplit]
  refine (filter_segment ?_ ?_ ?_).symm
  · rintro row hrow ⟨hlow, hhigh⟩
    obtain ⟨first, rest, hfirst⟩ := List.exists_cons_of_ne_nil hne
    have hlt := hearlier row hrow first (by simp [← hsplit, hfirst])
    have hle := h.first_le hchain (hseg ▸ by simp [hrow]) hlow (hhigh.trans hto)
      (show _ = some first by rw [hfirst, List.head?_cons])
    omega
  · intro row hrow
    refine ⟨(mem_rowsBetween.1 (hsplit ▸ hrow)).2.1, ?_⟩
    rcases List.mem_append.1 hrow with hrow | hrow
    · exact le_of_lt ((List.pairwise_append.1 hwithin).2.2 row hrow last (by simp))
    · rw [List.mem_singleton.1 hrow]
  · rintro row hrow ⟨-, hhigh⟩
    have hlt := hafter last (by simp) row hrow
    omega

/-- Take any table in place of the one that any interleaving of calls wrote.  A range that
verifies holds exactly the logged rows if and only if its first row, its last hash and the
unwritten lengths are the logged ones; two rows with one preimage are the same if and only if
these lengths are. -/
theorem verifyChain_exact_iff (calls : List (Call N)) (table : List (Row N))
    (community : CommunityId) (fromSeq toSeq : Int)
    (hfree : CollisionFree L ((runFrom (Server.step L) Server.start calls).rows ++ table))
    (hverify : verifyChain L table community fromSeq toSeq = .ok true) :
    let logged := (runFrom (Server.step L) Server.start calls).rows
    (Exact logged table community fromSeq toSeq ↔ Kept logged table community fromSeq toSeq) ∧
    ∀ (row row' : Row N) (e e' : AuditEntry N), rowToAuditEntry row = .ok e →
      rowToAuditEntry row' = .ok e' → preimage L e = preimage L e' →
        (row.fields = row'.fields ↔ row.shape = row'.shape) := by
  intro logged
  have hchain := (run_orderly (L := L) calls).chains community
  refine ⟨⟨fun h => h.kept hchain (verifyChain_ok hverify).1,
    fun h => h.exact hchain hfree hverify⟩, fun row row' e e' he he' hpre =>
      ⟨fun h => ?_, fun h => fields_of_preimage he he' h hpre⟩⟩
  have hshape (row : Row N) : row.fields.shape = row.shape := rfl
  rw [← hshape row, h, hshape]

abbrev SampleNumber := Fin 10 × List (Fin 10)

def sampleNumbers : NumberFormat SampleNumber where
  text n := (n.1 :: n.2).map fun d : Fin 10 => Nat.digitChar d
  inj := by
    have hdigit : ∀ d d' : Fin 10, Nat.digitChar d = Nat.digitChar d' → d = d' := by decide
    intro n n' h
    have := (List.map_injective_iff.2 fun d d' => hdigit d d') h
    exact Prod.ext (List.cons.inj this).1 (List.cons.inj this).2
  nonempty n := by simp
  symbols n c hc := by
    have hdigit : ∀ d : Fin 10, (Nat.digitChar d).isDigit = true := by decide
    obtain ⟨d, -, rfl⟩ := List.mem_map.1 hc
    exact .inl (hdigit d)
  starts n c hc := by
    have hdigit : ∀ d : Fin 10, (Nat.digitChar d).isDigit = true := by decide
    obtain rfl : Nat.digitChar n.1 = c := by simpa using hc
    exact .inl (hdigit n.1)

def sampleTime (t : Int) : List Char :=
  List.replicate (if t < 0 then 2 * t.natAbs - 1 else 2 * t.natAbs) '1'

theorem mem_utf8_replicate {n : Nat} {b : UInt8}
    (hb : b ∈ utf8 (String.ofList (List.replicate n '1'))) : b = 49 := by
  have hone : String.utf8EncodeChar '1' = [49] := by decide
  simp only [utf8, String.toByteArray_ofList, List.utf8Encode, List.data_toByteArray,
    List.mem_flatMap] at hb
  obtain ⟨c, hc, hb⟩ := hb
  rw [List.eq_of_mem_replicate hc, hone] at hb
  exact List.mem_singleton.1 hb

def sampleLibrary : Library SampleNumber where
  numbers := sampleNumbers
  rfc3339 t := String.ofList (sampleTime t)
  sha256 x := bigEndian 32 (x.foldl (fun n b => 257 * n + b.toNat + 1) 0)
  lockKey _ := 0
  rfc3339_inj t t' h := by
    have hlength := congrArg List.length (String.ofList_injective h)
    simp only [sampleTime, List.length_replicate] at hlength
    split at hlength <;> split at hlength <;> omega
  rfc3339_ascii t b hb := by
    rw [mem_utf8_replicate hb]
    decide
  sha256_length x := by simp [bigEndian]

def sampleCommunity : CommunityId := ⟨5⟩

def sampleNew (objectId : String) (number : SampleNumber) : NewAuditEntry SampleNumber where
  communityId := sampleCommunity
  action := .eventCreated
  actorPubkey := none
  objectId := some objectId
  detail := ⟨.number number, trivial⟩

def sampleCalls (new : NewAuditEntry SampleNumber) : List (Call SampleNumber) :=
  [.connect 0, .lock 0 new, .beginTx 0, .readHead 0, .insert 0 0, .commit 0, .unlock 0 true]

def sampleTable (new : NewAuditEntry SampleNumber) : List (Row SampleNumber) :=
  (runFrom (Server.step sampleLibrary) Server.start (sampleCalls new)).rows

theorem collisionFree_of_all (h : (table.all fun row => table.all fun row' =>
    match rowToAuditEntry row, rowToAuditEntry row' with
    | .ok e, .ok e' => !decide (computeHash L e = computeHash L e') || decide (preimage L e = preimage L e')
    | _, _ => true) = true) : CollisionFree L table := by
  intro row hrow row' hrow' e e' he he' hhash
  have hpair := List.all_eq_true.1 (List.all_eq_true.1 h row hrow) row' hrow'
  simpa [he, he', hhash] using hpair

-- Three entries by two sessions, of which the second is rolled back once.
def sampleLog : List (Row SampleNumber) :=
  (runFrom (Server.step sampleLibrary) Server.start
    (sampleCalls (sampleNew "a1" (2, [])) ++
      [.connect 1, .lock 1 (sampleNew "b" (3, [])), .beginTx 1, .readHead 1, .fail 1, .unlock 1 true,
        .lock 1 (sampleNew "b" (4, [])), .beginTx 1, .readHead 1, .insert 1 7, .commit 1,
        .unlock 1 true, .lock 0 (sampleNew "c" (5, [])), .beginTx 0, .readHead 0, .insert 0 9,
        .commit 0, .unlock 0 true])).rows

theorem verifyChain_exact_iff_sample :
    let table := sampleLog.drop 1
    CollisionFree sampleLibrary (sampleLog ++ table) ∧
    verifyChain sampleLibrary table sampleCommunity 1 3 = .ok true ∧
    (Exact sampleLog table sampleCommunity 1 3 ↔ Kept sampleLog table sampleCommunity 1 3) ∧
    ¬Exact sampleLog table sampleCommunity 1 3 := by
  intro table
  have hfree : CollisionFree sampleLibrary (sampleLog ++ table) := collisionFree_of_all (by decide +kernel)
  have hverify : verifyChain sampleLibrary table sampleCommunity 1 3 = .ok true := by decide +kernel
  have hiff := (verifyChain_exact_iff _ table sampleCommunity 1 3 hfree hverify).1
  refine ⟨hfree, hverify, hiff, fun hexact => ?_⟩
  -- The first row of the range is gone.
  exact absurd (hiff.1 hexact).first (by decide +kernel)

theorem forged_verifies :
    let logged := sampleTable (sampleNew "a1" (2, []))
    let forged := sampleTable (sampleNew "a" (1, [2]))
    CollisionFree sampleLibrary (logged ++ forged) ∧
    verifyChain sampleLibrary forged sampleCommunity 1 1 = .ok true ∧
    ¬ Exact logged forged sampleCommunity 1 1 := by
  refine ⟨collisionFree_of_all (by decide +kernel), by decide +kernel, ?_⟩
  rintro ⟨k, -, hrows⟩
  have hforged : (rowsBetween (sampleTable (sampleNew "a" (1, [2]))) sampleCommunity 1 1).map
      Row.objectId = [some "a"] := by decide +kernel
  have hlogged : ((sampleTable (sampleNew "a1" (2, []))).all fun row =>
      row.objectId = some "a1") = true := by decide +kernel
  obtain ⟨row, hrow, hid⟩ : ∃ row ∈ rowsBetween (sampleTable (sampleNew "a1" (2, [])))
      sampleCommunity 1 k, row.objectId = some "a" := by
    rw [← List.mem_map, ← hrows, hforged]
    exact List.mem_singleton.2 rfl
  have hlog := List.all_eq_true.1 hlogged row (rowsOf_subset row (mem_rowsBetween.1 hrow).1)
  simp [hid] at hlog

end Colony.Audit
