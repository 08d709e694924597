import Loam.AdminWire

/-!
# Who may have a request forwarded

The gate admits a request that names a key by a grant on one of the fronts of
`root/path` that end with a separator, the shortest first and no deeper than a
bound. It asks the capability contract two things: which object a scope is, and
whether a session's grants authorise a demand. Both are outside this repository
and are parameters here; what the contract says of them is `Contract.Honours`.

A front of the key is tried as it is in a buffer that is cut at the bound of a
scope. What is tried is a front of the whole key all the same, and the key is
told from every other by the joined string, since a root has no separator.

A lease is not to outlive its grant. The end is summed up in 64 bits, and where
the clock's reading is so late that the sum wraps around, the lease is forwarded
past the grant (`gate_admits_iff`).
-/

namespace Loam

open Slices

/-! ## The capability contract -/

/-- A grant, of what the gate reads and the contract decides by. -/
structure Grant where
  objectId : Bytes
  permissions : UInt16
  notAfter : UInt32
deriving DecidableEq

/-- What a request demands. -/
structure Demand where
  objectId : Bytes
  permissions : UInt16
deriving DecidableEq

/-- A reading of the trusted clock, in seconds. -/
structure Clock where
  now : UInt64
  uncertainty : UInt64
deriving DecidableEq

/-- What the gate uses of the capability contract. -/
structure Contract where
  /-- The longest scope (`SCOPE_MAX`). -/
  scopeMax : ℕ
  /-- The object of a scope (`grant::scope_object`). -/
  scopeObject : Bytes → Option Bytes
  /-- The first of the grants that authorises a demand
  (`SessionGrants::authorise`). -/
  authorise : List Grant → Demand → Option Clock → Option Grant
  /-- The permission to read (`perm::READ_STATE`). -/
  readState : UInt16
  /-- The permission to write (`perm::SEND_COMMAND`). -/
  sendCommand : UInt16
  /-- The permission to administer (`perm::ADMIN`). -/
  admin : UInt16
  sha256 : Bytes → Bytes

/-- What the contract says: a grant that authorises a demand is one of those
held, on the object demanded, permits what is demanded and is live by the clock;
and a digest has its width. -/
structure Contract.Honours (C : Contract) (Live : Grant → Option Clock → Prop) : Prop where
  held : ∀ {gs d c g}, C.authorise gs d c = some g → g ∈ gs
  object : ∀ {gs d c g}, C.authorise gs d c = some g → g.objectId = d.objectId
  permits : ∀ {gs d c g}, C.authorise gs d c = some g →
    g.permissions &&& d.permissions = d.permissions
  live : ∀ {gs d c g}, C.authorise gs d c = some g → Live g c
  digest : ∀ b, (C.sha256 b).length = digestLen

/-! ## The gate's decision -/

/-- What a session is authorised by. -/
structure Auth where
  grants : List Grant
  streams : List UInt8
  /-- The identity lease holders are bound to. -/
  id : Bytes
deriving DecidableEq

/-- The separator of a key. -/
def slash : UInt8 := 47

/-- Deepest scope a grant can name (`ADMIN_SCOPE_DEPTH`). -/
def adminScopeDepth : ℕ := 32

/-- A key as one string. -/
def joinedKey (root path : Bytes) : Bytes := root ++ slash :: path

/-- The permission bits an operation's class needs. -/
def permission (C : Contract) : Need → UInt16
  | .read => C.readState
  | .write => C.sendCommand
  | .admin => C.admin

/-- The fronts of a key that end with a separator, tried one after another: the
first that is granted, if one is before they are too deep. -/
def firstScope (demand : Bytes → Option Grant) : ℕ → Bytes → Bytes → Option Grant
  | _, _, [] => none
  | depth, front, b :: rest =>
    if b ≠ slash then firstScope demand depth (front ++ [b]) rest
    else if adminScopeDepth < depth + 1 then none
    else match demand (front ++ [b]) with
      | some g => some g
      | none => firstScope demand (depth + 1) (front ++ [b]) rest

/-- What a scope demands of a session's grants. -/
def scopeDemand (C : Contract) (a : Auth) (need : Need) (c : Option Clock) (scope : Bytes) :
    Option Grant :=
  match C.scopeObject scope with
  | none => none
  | some object => C.authorise a.grants ⟨object, permission C need⟩ c

/-- Admit a key (`authorise_key`): its string is cut at the bound of a scope, and
a root that is empty or has a separator is refused. -/
def authoriseKey (C : Contract) (a : Auth) (root path : Bytes) (need : Need)
    (c : Option Clock) : Option Grant :=
  if root.isEmpty ∨ slash ∈ root then none
  else firstScope (scopeDemand C a need c) 0 [] ((joinedKey root path).take (C.scopeMax + 1))

/-- Admit an object (`authorise_object`). -/
def authoriseObject (C : Contract) (a : Auth) (object : Bytes) (need : Need)
    (c : Option Clock) : Option Grant :=
  C.authorise a.grants ⟨object, permission C need⟩ c

/-- The bytes of loam-lease-holder, and 0. -/
def leaseHolderDomain : Bytes :=
  [108, 111, 97, 109, 45, 108, 101, 97, 115, 101, 45, 104, 111, 108, 100, 101, 114, 0]

/-- The holder the store records for an identity writing as `chosen`
(`bound_holder`). -/
def boundHolder (C : Contract) (id chosen : Bytes) : Bytes :=
  (C.sha256 (leaseHolderDomain ++ leBytes 2 id.length ++ id ++ chosen)).take leaseHolderLen

/-- When a lease ends by a reading of the clock, in 64 bits. -/
def leaseEnds (c : Clock) (ttlMs : ℕ) : UInt64 :=
  c.now + c.uncertainty + UInt64.ofNat ((ttlMs + 999) / 1000)

/-- What becomes of a request. -/
inductive GateAnswer where
  | closed
  | refused
  | forwarded (frame : Bytes)
deriving DecidableEq

/-- The grant a request is admitted by: none, where a stream's session is what
counts. -/
def admitted (C : Contract) (bodyObject : Bytes) (a : Auth) (c : Option Clock) :
    Scope × Need → Option (Option Grant)
  | (.stream pfid, _) => if pfid ∈ a.streams then some none else none
  | (.bodies, need) => (authoriseObject C a bodyObject need c).map some
  | (.key root path, need) => (authoriseKey C a root path need c).map some

/-- A request that has been admitted: a lease is held against its grant, a stream
that is committed is the session's no more, and the holder is bound to the
session's identity. -/
def bindAndForward (C : Contract) (a : Auth) (scope : Scope) (frame : Bytes) : Auth × GateAnswer :=
  let a := match scope with
    | .stream pfid =>
      if frame.head? = some admPutFileCommit then
        { a with streams := a.streams.filter (· ≠ pfid) }
      else a
    | _ => a
  (a, .forwarded (replaceHolder (boundHolder C a.id) frame))

/-- A request: authorise it, bind its holder, forward it (`request`). The clock is
read for the grant and once more for a lease. -/
def gateRequest (L : Limits) (C : Contract) (bodyObject : Bytes) (a : Auth) (c c' : Option Clock)
    (frame : Bytes) : Auth × GateAnswer :=
  match requestScope L frame with
  | none => (a, .closed)
  | some (scope, need) =>
    match admitted C bodyObject a c (scope, need) with
    | none => (a, .refused)
    | some grant =>
      if frame.head? = some admLease then
        match decodeAdminLease L frame, grant, c' with
        | none, _, _ => (a, .closed)
        | _, none, _ => (a, .closed)
        | _, _, none => (a, .refused)
        | some _, some g, some c' =>
          if leaseEnds c' (leaseTtlMs frame) > UInt64.ofNat g.notAfter.toNat then (a, .refused)
          else bindAndForward C a scope frame
      else bindAndForward C a scope frame

/-! ## What a key is admitted by -/

variable {L : Limits} {C : Contract} {Live : Grant → Option Clock → Prop} {a : Auth}
  {c c' : Option Clock} {need : Need} {root path frame bodyObject : Bytes} {g : Grant}

/-- What a grant has that a key is admitted by. -/
structure GrantAdmits (C : Contract) (Live : Grant → Option Clock → Prop) (a : Auth)
    (c : Option Clock) (need : Need) (root path : Bytes) (g : Grant) : Prop where
  held : g ∈ a.grants
  live : Live g c
  permits : g.permissions &&& permission C need = permission C need
  /-- It is on the object of a front of the key, which ends with a separator and has
  no more of them than the bound. -/
  scope : ∃ p, p <+: joinedKey root path ∧ p.getLast? = some slash ∧ p.count slash ≤ adminScopeDepth ∧
    C.scopeObject p = some g.objectId

/-- **What is tried is a front of the key**, not too deep. -/
theorem firstScope_eq_some {demand : Bytes → Option Grant} {depth : ℕ} (front : Bytes)
    {rest : Bytes}
    (hdepth : depth = front.count slash) (h : firstScope demand depth front rest = some g) :
    ∃ p, p <+: front ++ rest ∧ p.getLast? = some slash ∧ p.count slash ≤ adminScopeDepth ∧
      demand p = some g := by
  induction rest generalizing depth front with
  | nil => cases h
  | cons b rest ih =>
    have hassoc : front ++ b :: rest = front ++ [b] ++ rest := List.append_cons front b rest
    unfold firstScope at h
    split at h
    · next hb =>
      rw [hassoc]
      refine ih _ ?_ h
      rw [List.count_append, List.count_singleton, hdepth, if_neg (by simpa using hb), Nat.add_zero]
    next hb =>
    obtain rfl : b = slash := not_not.mp hb
    have hcount : (front ++ [slash]).count slash = depth + 1 := by
      rw [List.count_append, List.count_singleton_self, hdepth]
    split at h
    · cases h
    next hdeep =>
    split at h
    · next g' hg' =>
      obtain rfl := Option.some.inj h
      refine ⟨front ++ [slash], ?_, List.getLast?_concat, ?_, hg'⟩
      · rw [hassoc]
        exact List.prefix_append _ _
      · rw [hcount]
        exact Nat.not_lt.mp hdeep
    · rw [hassoc]
      exact ih _ hcount.symm h

/-- **A key is admitted within its scope.** -/
theorem authoriseKey_eq_some (hC : C.Honours Live) (h : authoriseKey C a root path need c = some g) :
    root ≠ [] ∧ slash ∉ root ∧ GrantAdmits C Live a c need root path g := by
  unfold authoriseKey at h
  split at h
  · cases h
  next hroot =>
  obtain ⟨hempty, hslash⟩ := not_or.mp hroot
  obtain ⟨p, hp, hlast, hcount, hdemand⟩ := firstScope_eq_some [] rfl h
  unfold scopeDemand at hdemand
  split at hdemand
  · cases hdemand
  next object hobject =>
  exact ⟨by simpa using hempty, hslash, hC.held hdemand, hC.live hdemand, hC.permits hdemand, p,
    hp.trans (List.take_prefix _ _), hlast, hcount, by rw [hobject, hC.object hdemand]⟩

/-- **A key is told by its string**, where roots have no separator. -/
theorem joinedKey_inj {root' path' : Bytes} (h : slash ∉ root) (h' : slash ∉ root')
    (he : joinedKey root' path' = joinedKey root path) : root' = root ∧ path' = path := by
  unfold joinedKey at he
  rcases List.append_eq_append_iff.mp he with ⟨t, ht, ht'⟩ | ⟨t, ht, ht'⟩
  · cases t with
    | nil =>
      rw [List.append_nil] at ht
      exact ⟨ht.symm, (List.cons.inj ht').2⟩
    | cons b t =>
      obtain ⟨rfl, -⟩ := List.cons.inj ht'
      exact absurd (by rw [ht]; simp) h
  · cases t with
    | nil =>
      rw [List.append_nil] at ht
      exact ⟨ht, (List.cons.inj ht').2.symm⟩
    | cons b t =>
      obtain ⟨rfl, -⟩ := List.cons.inj ht'
      exact absurd (by rw [ht]; simp) h'

/-! ## The frame forwarded -/

/-- A keyed request is decoded as before where what is overwritten is behind the
lengths and in front of the strings. -/
theorem keyedRequest_overwrite {op : UInt8} {header rootLenAt pathLenAt at' : ℕ} {h : Bytes}
    {tail : Bytes → List ℕ} {checks : Bytes → Bytes → Bytes → List Bytes → Bool}
    (hpos : 0 < at') (hroot : rootLenAt + 2 ≤ at') (hpath : pathLenAt + 2 ≤ at')
    (hheader : at' + h.length ≤ header) (hle : at' + h.length ≤ frame.length)
    (htail : tail (overwrite frame at' h) = tail frame)
    (hchecks : checks (overwrite frame at' h) = checks frame) :
    keyedRequest op header rootLenAt pathLenAt tail checks (overwrite frame at' h)
      = keyedRequest op header rootLenAt pathLenAt tail checks frame := by
  have hat : at' ≤ frame.length := (Nat.le_add_right _ _).trans hle
  have hslice : ∀ i n, header ≤ i → slice (overwrite frame at' h) i n = slice frame i n :=
    fun i n hi => slice_overwrite_right hle (hheader.trans hi)
  unfold keyedRequest stringsAt num
  simp only [length_overwrite hle, getD_overwrite_left hat hpos, slice_overwrite_left hat hroot,
    slice_overwrite_left hat hpath, htail, hchecks, hslice _ _ (Nat.le_refl header),
    hslice _ _ (Nat.le_add_right header _),
    cutAt_overwrite_right hle
      (hheader.trans ((Nat.le_add_right header _).trans (Nat.le_add_right _ _)))]

theorem length_boundHolder (hC : C.Honours Live) (id chosen : Bytes) :
    (boundHolder C id chosen).length = leaseHolderLen := by
  rw [boundHolder, List.length_take, hC.digest]
  rfl

/-- **The request forwarded touches what was admitted**: binding its holder
changes neither its key nor its time to live. -/
theorem requestScope_replaceHolder (hC : C.Honours Live) (frame id : Bytes) :
    requestScope L (replaceHolder (boundHolder C id) frame) = requestScope L frame ∧
      (frame.head? = some admLease →
        leaseTtlMs (replaceHolder (boundHolder C id) frame) = leaseTtlMs frame) := by
  unfold replaceHolder
  cases hat : requestHolderAt frame with
  | none => exact ⟨rfl, fun _ => rfl⟩
  | some k =>
    have hlen := length_boundHolder hC id (slice frame k leaseHolderLen)
    dsimp only
    generalize boundHolder C id (slice frame k leaseHolderLen) = h at hlen ⊢
    rw [← hlen]
    show requestScope L (overwrite frame k h) = _ ∧
      (_ → leaseTtlMs (overwrite frame k h) = leaseTtlMs frame)
    obtain ⟨hkind, hfit⟩ := requestHolderAt_eq_some hat
    have hle : k + h.length ≤ frame.length := hlen ▸ hfit
    have hhead : (overwrite frame k h).head? = frame.head? := by
      have hpos : 0 < k := by rcases hkind with ⟨-, rfl⟩ | ⟨-, rfl⟩ <;> decide
      cases frame with
      | nil => rcases hkind with ⟨hop, -⟩ | ⟨hop, -⟩ <;> cases hop
      | cons b frame =>
        obtain ⟨k, rfl⟩ := Nat.exists_eq_add_of_lt hpos
        rw [overwrite, Nat.zero_add, List.take_succ_cons]
        rfl
    unfold requestScope leaseTtlMs num
    rcases hkind with ⟨hop, rfl⟩ | ⟨hop, rfl⟩
    · have hkey : decodeAdminLease L (overwrite frame leaseHolderAt h) = decodeAdminLease L frame := by
        unfold decodeAdminLease
        exact keyedRequest_overwrite (by decide) (by decide) (by decide)
          (by rw [hlen]; decide) hle rfl rfl
      rw [hhead, hop]
      exact ⟨congrArg (keyScope .write) hkey, fun _ =>
        congrArg leNat (slice_overwrite_right hle (by rw [hlen]; exact Nat.le_refl _))⟩
    · have hkey : decodeAdminVolume L (overwrite frame volumeHolderAt h)
          = decodeAdminVolume L frame := by
        unfold decodeAdminVolume num
        refine keyedRequest_overwrite (by decide) (by decide) (by decide)
          (by rw [hlen]; decide) hle ?_ rfl
        rw [slice_overwrite_left ((Nat.le_add_right _ _).trans hle) (by decide)]
      rw [hhead, hop]
      exact ⟨congrArg (keyScope .write) hkey, fun hc => absurd (Option.some.inj hc) (by decide)⟩

/-! ## The gate -/

/-- When a lease ends by a reading of the clock. -/
def leaseSum (r : Clock) (ttlMs : ℕ) : ℕ :=
  r.now.toNat + r.uncertainty.toNat + (ttlMs + 999) / 1000

theorem toNat_leaseEnds (r : Clock) (ttlMs : ℕ) :
    (leaseEnds r ttlMs).toNat = leaseSum r ttlMs % 2 ^ 64 := by
  rw [leaseEnds, leaseSum, UInt64.toNat_add, UInt64.toNat_add, UInt64.toNat_ofNat',
    Nat.mod_add_mod, Nat.add_mod_mod]

theorem toNat_notAfter (g : Grant) : (UInt64.ofNat g.notAfter.toNat).toNat = g.notAfter.toNat :=
  UInt64.toNat_ofNat_of_lt' (Nat.lt_of_lt_of_le g.notAfter.toNat_lt (by decide))

/-- **What the gate is to let through** of a request that names a key: the frame
still touches what was admitted; the key is told from every other; a live grant
with the permission the operation needs names a front of it; and a lease ends no
later than that grant. -/
def AdmitsWithinScope (L : Limits) (C : Contract) (Live : Grant → Option Clock → Prop) (a : Auth)
    (c c' : Option Clock) (frame : Bytes) (answer : GateAnswer) : Prop :=
  ∀ f root path need, answer = .forwarded f → requestScope L frame = some (.key root path, need) →
    requestScope L f = some (.key root path, need) ∧
    (root ≠ [] ∧ ∀ root' path', slash ∉ root' →
      joinedKey root' path' = joinedKey root path → root' = root ∧ path' = path) ∧
    ∃ g, GrantAdmits C Live a c need root path g ∧
      (frame.head? = some admLease → ∃ r, c' = some r ∧ leaseSum r (leaseTtlMs f) ≤ g.notAfter.toNat)

/-- The end of a lease that is admitted does not pass 64 bits, or has gone so far
past them that it is late all the same. -/
def LeaseTimeFits (L : Limits) (C : Contract) (a : Auth) (c c' : Option Clock) (frame : Bytes) :
    Prop :=
  ∀ root path need g r, requestScope L frame = some (.key root path, need) →
    frame.head? = some admLease → authoriseKey C a root path need c = some g → c' = some r →
    leaseSum r (leaseTtlMs frame) < 2 ^ 64 ∨
      g.notAfter.toNat < leaseSum r (leaseTtlMs frame) % 2 ^ 64

theorem decodeAdminLease_of_scope {scope : Scope} (hlease : frame.head? = some admLease)
    (h : requestScope L frame = some (scope, need)) :
    ∃ root path, decodeAdminLease L frame = some (root, path) ∧ scope = .key root path := by
  unfold requestScope at h
  rw [hlease] at h
  replace h : keyScope .write (decodeAdminLease L frame) = some (scope, need) := h
  cases hkey : decodeAdminLease L frame with
  | none =>
    rw [hkey] at h
    cases h
  | some k =>
    rw [hkey] at h
    cases h
    exact ⟨k.1, k.2, rfl, rfl⟩

/-- **What a keyed request is forwarded on**: it is admitted by a grant, and a
lease is held against that grant by the second reading of the clock. -/
theorem gateRequest_forwarded {f : Bytes} (bodyObject : Bytes)
    (hscope : requestScope L frame = some (.key root path, need)) :
    (gateRequest L C bodyObject a c c' frame).2 = .forwarded f ↔
      f = replaceHolder (boundHolder C a.id) frame ∧
      ∃ g, authoriseKey C a root path need c = some g ∧
        (frame.head? = some admLease → ∃ r, c' = some r ∧
          leaseSum r (leaseTtlMs frame) % 2 ^ 64 ≤ g.notAfter.toNat) := by
  unfold gateRequest
  rw [hscope]
  show (match (authoriseKey C a root path need c).map some with
    | none => _
    | some grant => _ : Auth × GateAnswer).2 = _ ↔ _
  cases hg : authoriseKey C a root path need c with
  | none =>
    refine iff_of_false (fun h => nomatch h) ?_
    rintro ⟨-, g, hg, -⟩
    cases hg
  | some g =>
    dsimp only [Option.map_some]
    by_cases hlease : frame.head? = some admLease
    · rw [if_pos hlease]
      obtain ⟨root', path', hdec, -⟩ := decodeAdminLease_of_scope hlease hscope
      rw [hdec]
      cases c' with
      | none =>
        refine iff_of_false (fun h => nomatch h) ?_
        rintro ⟨-, _, -, hr⟩
        obtain ⟨r, hr, -⟩ := hr hlease
        cases hr
      | some r =>
        dsimp only
        have hends : leaseEnds r (leaseTtlMs frame) > UInt64.ofNat g.notAfter.toNat ↔
            g.notAfter.toNat < leaseSum r (leaseTtlMs frame) % 2 ^ 64 := by
          rw [gt_iff_lt, UInt64.lt_iff_toNat_lt, toNat_leaseEnds, toNat_notAfter]
        split
        · next hlate =>
          refine iff_of_false (fun h => nomatch h) ?_
          rintro ⟨-, g', hg', hr⟩
          obtain rfl := Option.some.inj hg'
          obtain ⟨r', hr', hle⟩ := hr hlease
          obtain rfl := Option.some.inj hr'
          exact absurd hle (Nat.not_le.mpr (hends.mp hlate))
        · next hin =>
          have hle := Nat.not_lt.mp (mt hends.mpr hin)
          constructor
          · intro h
            exact ⟨(GateAnswer.forwarded.inj h).symm, g, rfl, fun _ => ⟨r, rfl, hle⟩⟩
          · rintro ⟨rfl, -⟩
            rfl
    · rw [if_neg hlease]
      constructor
      · intro h
        exact ⟨(GateAnswer.forwarded.inj h).symm, g, rfl, fun hc => absurd hc hlease⟩
      · rintro ⟨rfl, -⟩
        rfl

/-- **The gate admits within scope**, of every request, whatever the grants and
the readings of the clock: but for a lease whose end passes 64 bits. -/
theorem gate_admits_iff (L : Limits) (C : Contract) (Live : Grant → Option Clock → Prop)
    (hC : C.Honours Live) (bodyObject : Bytes) (a : Auth) (c c' : Option Clock) (frame : Bytes) :
    AdmitsWithinScope L C Live a c c' frame (gateRequest L C bodyObject a c c' frame).2 ↔
      LeaseTimeFits L C a c c' frame := by
  constructor
  · intro h root path need g r hscope hlease hg hr
    by_contra hlate
    obtain ⟨hover, hwrap⟩ := not_or.mp hlate
    -- The lease is forwarded on a sum that has wrapped around.
    have hforward := (gateRequest_forwarded bodyObject hscope).mpr
      ⟨rfl, g, hg, fun _ => ⟨r, hr, Nat.not_lt.mp hwrap⟩⟩
    obtain ⟨-, -, g', -, htime⟩ := h _ root path need hforward hscope
    obtain ⟨r', hr', hle⟩ := htime hlease
    obtain rfl := Option.some.inj (hr.symm.trans hr')
    rw [(requestScope_replaceHolder (L := L) hC frame a.id).2 hlease] at hle
    have hlast := g'.notAfter.toNat_lt
    omega
  · intro hfits f root path need hforward hscope
    obtain ⟨rfl, g, hg, htime⟩ := (gateRequest_forwarded bodyObject hscope).mp hforward
    obtain ⟨hroot, hslash, hadmits⟩ := authoriseKey_eq_some hC hg
    obtain ⟨hsame, httl⟩ := requestScope_replaceHolder (L := L) hC frame a.id
    refine ⟨hsame.trans hscope, ⟨hroot, fun root' path' h' he => joinedKey_inj hslash h' he⟩, g,
      hadmits, fun hlease => ?_⟩
    obtain ⟨r, hr, hle⟩ := htime hlease
    refine ⟨r, hr, ?_⟩
    rw [httl hlease]
    rcases hfits root path need g r hscope hlease hg hr with hin | hlate
    · rwa [Nat.mod_eq_of_lt hin] at hle
    · exact absurd hle (Nat.not_le.mpr hlate)

/-! A contract by which a scope is its own object, and a session with one grant
on the root `b`. -/

/-- A grant is live up to its end, by the latest the clock may mean. -/
def exampleLive (g : Grant) (c : Option Clock) : Prop :=
  ∃ r, c = some r ∧ r.now.toNat + r.uncertainty.toNat ≤ g.notAfter.toNat

/-- Does the grant authorise the demand? -/
def exampleAuthorises (d : Demand) (c : Option Clock) (g : Grant) : Bool :=
  g.objectId == d.objectId && g.permissions &&& d.permissions == d.permissions &&
    c.any fun r => decide (r.now.toNat + r.uncertainty.toNat ≤ g.notAfter.toNat)

/-- See `exampleLive`. -/
def exampleContract : Contract where
  scopeMax := 64
  scopeObject p := if p.length ≤ 64 then some p else none
  authorise gs d c := gs.find? (exampleAuthorises d c)
  readState := 1
  sendCommand := 2
  admin := 4
  sha256 _ := List.replicate 32 9

theorem exampleContract_honours : exampleContract.Honours exampleLive := by
  have hfound : ∀ {gs d c g}, exampleContract.authorise gs d c = some g →
      exampleAuthorises d c g = true := fun h => List.find?_some h
  simp only [exampleAuthorises, Bool.and_eq_true, beq_iff_eq, Option.any_eq_true,
    decide_eq_true_eq] at hfound
  exact ⟨fun h => List.mem_of_find?_eq_some h, fun h => (hfound h).1.1, fun h => (hfound h).1.2,
    fun h => (hfound h).2, fun _ => List.length_replicate⟩

/-- Writes under the root `b`, up to second 1000. -/
def exampleAuth : Auth := ⟨[⟨[98, slash], 2, 1000⟩], [], [1, 2]⟩

/-- A lease of one second on the key `b/k`. -/
def exampleLease : Bytes :=
  [admLease] ++ leBytes 4 7 ++ [1] ++ leBytes 2 1 ++ leBytes 2 1 ++ List.replicate 16 3
    ++ leBytes 4 1000 ++ [98] ++ [107]

/-- The lease is admitted by a clock that keeps time. -/
theorem gate_admits_lease :
    AdmitsWithinScope .minimal exampleContract exampleLive exampleAuth (some ⟨5, 1⟩) (some ⟨6, 1⟩)
      exampleLease (gateRequest .minimal exampleContract [] exampleAuth (some ⟨5, 1⟩) (some ⟨6, 1⟩)
        exampleLease).2 :=
  (gate_admits_iff .minimal exampleContract exampleLive exampleContract_honours [] exampleAuth
    (some ⟨5, 1⟩) (some ⟨6, 1⟩) exampleLease).mpr fun _ _ _ _ _ _ _ _ hr => by
      obtain rfl := Option.some.inj hr
      exact .inl (by decide)

/-- **A lease is forwarded past its grant** when the second reading of the clock
is the last second there is. -/
theorem lease_past_grant :
    (gateRequest .minimal exampleContract [] exampleAuth (some ⟨5, 1⟩)
        (some ⟨18446744073709551615, 0⟩) exampleLease).2
      = .forwarded (replaceHolder (boundHolder exampleContract [1, 2]) exampleLease) ∧
    ¬ AdmitsWithinScope .minimal exampleContract exampleLive exampleAuth (some ⟨5, 1⟩)
      (some ⟨18446744073709551615, 0⟩) exampleLease (gateRequest .minimal exampleContract []
        exampleAuth (some ⟨5, 1⟩) (some ⟨18446744073709551615, 0⟩) exampleLease).2 := by
  refine ⟨by decide, fun h => ?_⟩
  obtain ⟨-, -, g, -, htime⟩ := h _ [98] [107] .write (by decide : _ = GateAnswer.forwarded
    (replaceHolder (boundHolder exampleContract [1, 2]) exampleLease)) (by decide)
  obtain ⟨r, hr, hle⟩ := htime (by decide)
  obtain rfl := Option.some.inj hr
  have hlast := g.notAfter.toNat_lt
  have hsum : 18446744073709551615 ≤ leaseSum ⟨18446744073709551615, 0⟩ (leaseTtlMs
      (replaceHolder (boundHolder exampleContract [1, 2]) exampleLease)) := by
    decide
  omega

end Loam
