import Mathlib.Data.List.Basic

set_option autoImplicit false

/-! # Listen addresses: `parseListeners` and the listeners of `newServer`

`parseListeners` files each listen address on the IPv4 list, the IPv6 list or both: an empty host
(or `*` on plan9) is a wildcard and goes on both, a host that `net.ParseIP` reads goes by
`To4`, and anything else stops the loop with an error. `newServer` then calls `net.Listen` with
`"tcp4"` on each IPv4 address and `"tcp6"` on each IPv6 address, skips the calls that fail, and
refuses to start with no listener left. `newServerListeners` is that listener setup of `newServer`
and nothing else of it.

The model keeps the loop with its three accumulators as the source has it. Over it,
`ListenLib.listenKind` says what the loop decides for one address, and
`parseListeners_eq_mapM` shows the loop is that decision mapped over the addresses and the
results filed by kind. Every property of the two functions is read off that equation: the first
bad address decides the error, the two lists are sublists of the input, and every address is on at
least one of them.

The packages `net` and `runtime` are not modelled: `ListenLib` holds the calls the two functions
make, and every theorem is stated for all of them. -/

namespace FactomCode

/-- The calls `parseListeners` and the listener setup of `newServer` make in `net` and `runtime`. -/
structure ListenLib (IP Listener : Type) where
  /-- `net.SplitHostPort`: the host and port, or the error it returns. -/
  splitHostPort : String → Except String (String × String)
  /-- `net.ParseIP`; `none` for nil. -/
  parseIP : String → Option IP
  /-- `IP.To4`; `none` for nil, which it returns when the IP is not an IPv4 address. -/
  to4 : IP → Option IP
  /-- `runtime.GOOS`. -/
  goos : String
  /-- `net.Listen(network, addr)`. -/
  listen : String → String → Except String Listener

variable {IP Listener : Type} (lib : ListenLib IP Listener)

/-- The text of the error `parseListeners` builds for a host `net.ParseIP` rejects. -/
def invalidIPMessage (host : String) : String := "'" ++ host ++ "' is not a valid IP address"

/-- The host test of `parseListeners`: empty, or `*` on plan9, is both IPv4 and IPv6. -/
def ListenLib.isWildcard (host : String) : Bool := host = "" ∨ (host = "*" ∧ lib.goos = "plan9")

/-- The loop of `parseListeners` over its accumulators `ipv4ListenAddrs`, `ipv6ListenAddrs` and
    `haveWildcard`. An error returns at once, with nil lists. -/
def parseListeners.loop (ipv4 ipv6 : List String) (haveWildcard : Bool) :
    List String → Except String (List String × List String × Bool)
  | [] => .ok (ipv4, ipv6, haveWildcard)
  | addr :: addrs =>
    match lib.splitHostPort addr with
    | .error err => .error err
    | .ok (host, _) =>
      if lib.isWildcard host then
        parseListeners.loop (ipv4 ++ [addr]) (ipv6 ++ [addr]) true addrs
      else
        match lib.parseIP host with
        | none => .error (invalidIPMessage host)
        | some ip =>
          if (lib.to4 ip).isNone then parseListeners.loop ipv4 (ipv6 ++ [addr]) haveWildcard addrs
          else parseListeners.loop (ipv4 ++ [addr]) ipv6 haveWildcard addrs

/-- `parseListeners(addrs)`: the IPv4 addresses, the IPv6 addresses, and whether one was a
    wildcard. -/
def parseListeners (addrs : List String) : Except String (List String × List String × Bool) :=
  parseListeners.loop lib [] [] false addrs

/-- `net.Listen(network, addr)` for each address in turn; a failed call is logged and skipped. -/
def listenAll (network : String) (addrs : List String) : List Listener :=
  addrs.filterMap fun addr => (lib.listen network addr).toOption

/-- The listener setup of `newServer`: none with `cfg.DisableListen`; otherwise `parseListeners`,
    then the IPv4 listeners on `"tcp4"` and the IPv6 listeners on `"tcp6"`, and the error
    `"no valid listen address"` when none is left. The external IPs, UPnP discovery and the
    address manager's local addresses it sets up on the way change no listener. -/
def newServerListeners (disableListen : Bool) (listenAddrs : List String) :
    Except String (List Listener) :=
  if disableListen then .ok []
  else do
    let (ipv4Addrs, ipv6Addrs, _) ← parseListeners lib listenAddrs
    let listeners := listenAll lib "tcp4" ipv4Addrs ++ listenAll lib "tcp6" ipv6Addrs
    if listeners.length = 0 then .error "no valid listen address" else pure listeners

/-! ## What the loop decides for one address -/

/-- Where `parseListeners` files an address. -/
inductive ListenKind
  | wildcard
  | ipv4
  | ipv6
  deriving DecidableEq, Repr

/-- An address of this kind is listened on with `"tcp4"`. -/
def ListenKind.onIPv4 : ListenKind → Bool
  | .wildcard => true
  | .ipv4 => true
  | .ipv6 => false

/-- An address of this kind is listened on with `"tcp6"`. -/
def ListenKind.onIPv6 : ListenKind → Bool
  | .wildcard => true
  | .ipv4 => false
  | .ipv6 => true

/-- The decision one turn of the loop of `parseListeners` takes on one address. -/
def ListenLib.listenKind (addr : String) : Except String ListenKind :=
  match lib.splitHostPort addr with
  | .error err => .error err
  | .ok (host, _) =>
    if lib.isWildcard host then .ok .wildcard
    else
      match lib.parseIP host with
      | none => .error (invalidIPMessage host)
      | some ip => if (lib.to4 ip).isNone then .ok .ipv6 else .ok .ipv4

/-- The three results of `parseListeners`, from the addresses with their kinds. -/
def fileListeners (ks : List (String × ListenKind)) : List String × List String × Bool :=
  ((ks.filter (·.2.onIPv4)).map (·.1), (ks.filter (·.2.onIPv6)).map (·.1),
    ks.any (·.2 = .wildcard))

/-- Each address with its kind, or the error of the first address that has none. -/
def ListenLib.kinds (addrs : List String) : Except String (List (String × ListenKind)) :=
  addrs.mapM fun addr => (addr, ·) <$> lib.listenKind addr

/-! ## The loop refines the decision -/

/-- One turn of the loop: the address's kind decides the accumulators, its error ends the loop. -/
theorem parseListeners.loop_cons (ipv4 ipv6 : List String) (wc : Bool) (addr : String)
    (addrs : List String) :
    parseListeners.loop lib ipv4 ipv6 wc (addr :: addrs) =
      match lib.listenKind addr with
      | .error err => .error err
      | .ok k =>
        parseListeners.loop lib (if k.onIPv4 then ipv4 ++ [addr] else ipv4)
          (if k.onIPv6 then ipv6 ++ [addr] else ipv6) (wc || k = .wildcard) addrs := by
  simp only [parseListeners.loop, ListenLib.listenKind]
  split
  · rfl
  · split
    · simp [ListenKind.onIPv4, ListenKind.onIPv6]
    · split
      · rfl
      · split <;> simp [ListenKind.onIPv4, ListenKind.onIPv6]

theorem ListenLib.kinds_cons (addr : String) (addrs : List String) :
    lib.kinds (addr :: addrs) =
      match lib.listenKind addr with
      | .error err => .error err
      | .ok k => (fun ks => (addr, k) :: ks) <$> lib.kinds addrs := by
  simp only [ListenLib.kinds, List.mapM_cons]
  cases lib.listenKind addr <;> rfl

/-- The whole loop, from any accumulators: the kinds of the addresses filed after them. -/
theorem parseListeners.loop_eq (ipv4 ipv6 : List String) (wc : Bool) (addrs : List String) :
    parseListeners.loop lib ipv4 ipv6 wc addrs =
      (fun ks => let r := fileListeners ks; (ipv4 ++ r.1, ipv6 ++ r.2.1, wc || r.2.2)) <$>
        lib.kinds addrs := by
  induction addrs generalizing ipv4 ipv6 wc with
  | nil => rw [ListenLib.kinds, List.mapM_nil]; simp [parseListeners.loop, fileListeners]; rfl
  | cons addr addrs ih =>
    rw [parseListeners.loop_cons, ListenLib.kinds_cons]
    cases lib.listenKind addr with
    | error err => rfl
    | ok k =>
      simp only [ih]
      cases h : lib.kinds addrs <;> cases k <;>
        simp [fileListeners, ListenKind.onIPv4, ListenKind.onIPv6, Functor.map, Except.map]

/-- `parseListeners` is the decision of each address, filed by kind: the error of the first
    address with no kind, or the addresses on `"tcp4"`, those on `"tcp6"`, and whether one was a
    wildcard. -/
theorem parseListeners_eq_kinds (addrs : List String) :
    parseListeners lib addrs = fileListeners <$> lib.kinds addrs := by
  rw [parseListeners, parseListeners.loop_eq]
  cases lib.kinds addrs <;> rfl

/-! ## Errors and the two lists -/

/-- Whether `parseListeners` files an address on the list `p` picks; never for an address it
    rejects. -/
def ListenLib.filedOn (p : ListenKind → Bool) (addr : String) : Bool :=
  match lib.listenKind addr with
  | .ok k => p k
  | .error _ => false

theorem ListenLib.filedOn_of_listenKind {p : ListenKind → Bool} {addr : String} {k : ListenKind}
    (h : lib.listenKind addr = .ok k) : lib.filedOn p addr = p k := by
  rw [ListenLib.filedOn, h]

/-- Every address of the list has a kind: `parseListeners` takes no early return. -/
def ListenLib.AllKinded (addrs : List String) : Prop := ∀ a ∈ addrs, ∃ k, lib.listenKind a = .ok k

theorem map_eq_error_iff {α β : Type} (f : α → β) (x : Except String α) (e : String) :
    f <$> x = .error e ↔ x = .error e := by
  cases x <;> simp [Functor.map, Except.map]

/-- The first address without a kind gives the error of the whole list. -/
theorem ListenLib.kinds_eq_error {e : String} :
    ∀ {addrs : List String}, lib.kinds addrs = .error e ↔
      ∃ pre addr post, addrs = pre ++ addr :: post ∧ lib.AllKinded pre ∧
        lib.listenKind addr = .error e
  | [] => by
    refine ⟨fun h => (by cases h), ?_⟩
    rintro ⟨pre, a, post, h, -⟩
    simp at h
  | addr :: addrs => by
    simp only [ListenLib.kinds_cons, List.cons_eq_append_iff]
    cases hk : lib.listenKind addr with
    | error err =>
      refine ⟨fun h => ⟨[], addr, addrs, .inl ⟨rfl, rfl⟩, by simp [ListenLib.AllKinded], ?_⟩, ?_⟩
      · cases h; exact hk
      rintro ⟨pre, a, post, ⟨rfl, h⟩ | ⟨pre, rfl, -⟩, hpre, ha⟩
      · obtain ⟨rfl, -⟩ := List.cons.inj h
        rw [hk] at ha
        cases ha
        rfl
      · obtain ⟨k, hk'⟩ := hpre addr (List.mem_cons_self _ _)
        rw [hk] at hk'
        cases hk'
    | ok k =>
      rw [map_eq_error_iff, ListenLib.kinds_eq_error]
      constructor
      · rintro ⟨pre, a, post, rfl, hpre, ha⟩
        exact ⟨addr :: pre, a, post, .inr ⟨pre, rfl, rfl⟩, List.forall_mem_cons.2 ⟨⟨k, hk⟩, hpre⟩,
          ha⟩
      · rintro ⟨pre, a, post, ⟨rfl, h⟩ | ⟨pre, rfl, rfl⟩, hpre, ha⟩
        · obtain ⟨rfl, -⟩ := List.cons.inj h
          rw [hk] at ha
          cases ha
        · exact ⟨pre, a, post, rfl, fun b hb => hpre b (List.mem_cons_of_mem _ hb), ha⟩

theorem ListenLib.not_allKinded_of_kinds_eq_error {addrs : List String} {e : String}
    (h : lib.kinds addrs = .error e) : ¬ lib.AllKinded addrs := by
  obtain ⟨pre, a, post, rfl, -, ha⟩ := lib.kinds_eq_error.1 h
  intro hall
  obtain ⟨k, hk⟩ := hall a (by simp)
  rw [hk] at ha
  cases ha

/-- Found kinds are filed as `filedOn` says, address by address. -/
theorem ListenLib.kinds_eq_ok {ks : List (String × ListenKind)} :
    ∀ {addrs : List String}, lib.kinds addrs = .ok ks →
      lib.AllKinded addrs ∧ fileListeners ks =
        (addrs.filter (lib.filedOn ListenKind.onIPv4), addrs.filter (lib.filedOn ListenKind.onIPv6),
          addrs.any (lib.filedOn (· = .wildcard)))
  | [], h => by
    cases h
    simp [ListenLib.AllKinded, fileListeners]
  | addr :: addrs, h => by
    rw [ListenLib.kinds_cons] at h
    cases hk : lib.listenKind addr with
    | error err => rw [hk] at h; cases h
    | ok k =>
      rw [hk] at h
      cases hks : lib.kinds addrs with
      | error err => rw [hks] at h; cases h
      | ok ks' =>
        rw [hks] at h
        cases h
        obtain ⟨hall, hfile⟩ := ListenLib.kinds_eq_ok hks
        simp only [fileListeners, Prod.mk.injEq] at hfile
        obtain ⟨h4, h6, hw⟩ := hfile
        refine ⟨List.forall_mem_cons.2 ⟨⟨k, hk⟩, hall⟩, ?_⟩
        simp only [fileListeners, List.filter_cons, List.any_cons, lib.filedOn_of_listenKind hk,
          Prod.mk.injEq]
        refine ⟨?_, ?_, by rw [hw]⟩ <;> split_ifs <;> simp [h4, h6]

/-- `parseListeners` returns exactly when every address has a kind, and then files each address
    by it. -/
theorem parseListeners_eq_ok_iff {addrs : List String} {r : List String × List String × Bool} :
    parseListeners lib addrs = .ok r ↔ lib.AllKinded addrs ∧
      r = (addrs.filter (lib.filedOn ListenKind.onIPv4), addrs.filter (lib.filedOn ListenKind.onIPv6),
        addrs.any (lib.filedOn (· = .wildcard))) := by
  rw [parseListeners_eq_kinds]
  cases h : lib.kinds addrs with
  | error e =>
    exact ⟨fun h' => (by cases h'), fun ⟨hall, _⟩ => (lib.not_allKinded_of_kinds_eq_error h hall).elim⟩
  | ok ks =>
    obtain ⟨hall, hfile⟩ := lib.kinds_eq_ok h
    rw [← hfile]
    exact ⟨fun h' => ⟨hall, by cases h'; rfl⟩, fun ⟨_, hr⟩ => by rw [hr]; rfl⟩

/-- The first address without a kind gives `parseListeners` its error: the error of
    `net.SplitHostPort`, or `"'host' is not a valid IP address"` for its host. -/
theorem parseListeners_eq_error_iff {addrs : List String} {e : String} :
    parseListeners lib addrs = .error e ↔
      ∃ pre addr post, addrs = pre ++ addr :: post ∧ lib.AllKinded pre ∧
        lib.listenKind addr = .error e := by
  rw [parseListeners_eq_kinds, map_eq_error_iff, lib.kinds_eq_error]

theorem ListenLib.filedOn_wildcard_iff {addr : String} :
    lib.filedOn (· = .wildcard) addr = true ↔ lib.listenKind addr = .ok .wildcard := by
  unfold ListenLib.filedOn
  split <;> simp_all

/-- A wildcard address is filed twice, every other address once. -/
theorem ListenLib.length_filedOn : ∀ {addrs : List String}, lib.AllKinded addrs →
    (addrs.filter (lib.filedOn ListenKind.onIPv4)).length +
        (addrs.filter (lib.filedOn ListenKind.onIPv6)).length =
      addrs.length + (addrs.filter (lib.filedOn (· = .wildcard))).length
  | [], _ => rfl
  | addr :: addrs, hall => by
    obtain ⟨k, hk⟩ := hall addr (List.mem_cons_self _ _)
    have ih := ListenLib.length_filedOn fun a ha => hall a (List.mem_cons_of_mem _ ha)
    simp only [List.filter_cons, lib.filedOn_of_listenKind hk, List.length_cons]
    cases k <;> simp [ListenKind.onIPv4, ListenKind.onIPv6] <;> omega

/-- On success the IPv4 and IPv6 lists are sublists of the addresses that together hold each of
    them, a wildcard address on both, and `haveWildcard` says whether there was one. -/
theorem parseListeners_partition {addrs ipv4 ipv6 : List String} {wc : Bool}
    (h : parseListeners lib addrs = .ok (ipv4, ipv6, wc)) :
    ipv4.Sublist addrs ∧ ipv6.Sublist addrs ∧ (∀ a ∈ addrs, a ∈ ipv4 ∨ a ∈ ipv6) ∧
      ipv4.length + ipv6.length =
        addrs.length + (addrs.filter (lib.filedOn (· = .wildcard))).length ∧
      (wc = true ↔ ∃ a ∈ addrs, lib.listenKind a = .ok .wildcard) := by
  obtain ⟨hall, hr⟩ := (parseListeners_eq_ok_iff lib).1 h
  simp only [Prod.mk.injEq] at hr
  obtain ⟨rfl, rfl, rfl⟩ := hr
  refine ⟨List.filter_sublist _, List.filter_sublist _, fun a ha => ?_, lib.length_filedOn hall,
    by simp only [List.any_eq_true, lib.filedOn_wildcard_iff]⟩
  obtain ⟨k, hk⟩ := hall a ha
  cases k <;> simp [List.mem_filter, ha, lib.filedOn_of_listenKind hk, ListenKind.onIPv4,
    ListenKind.onIPv6]

/-- A library with one IPv4 and one IPv6 literal, where every address splits to itself. -/
def sampleListenLib : ListenLib Nat Unit where
  splitHostPort addr := .ok (addr, "8108")
  parseIP host := if host = "10.0.0.1" then some 4 else if host = "::1" then some 6 else none
  to4 ip := if ip = 4 then some ip else none
  goos := "linux"
  listen _ _ := .ok ()

theorem parseListeners_partition_sample :
    parseListeners sampleListenLib ["", "10.0.0.1", "::1"] =
        .ok (["", "10.0.0.1"], ["", "::1"], true) ∧
      ["", "10.0.0.1"].Sublist ["", "10.0.0.1", "::1"] ∧
      ["", "::1"].Sublist ["", "10.0.0.1", "::1"] ∧
      (∀ a ∈ ["", "10.0.0.1", "::1"], a ∈ ["", "10.0.0.1"] ∨ a ∈ ["", "::1"]) ∧
      ["", "10.0.0.1"].length + ["", "::1"].length = ["", "10.0.0.1", "::1"].length +
        (["", "10.0.0.1", "::1"].filter (sampleListenLib.filedOn (· = .wildcard))).length ∧
      (true = true ↔ ∃ a ∈ ["", "10.0.0.1", "::1"],
        sampleListenLib.listenKind a = .ok .wildcard) := by
  have h : parseListeners sampleListenLib ["", "10.0.0.1", "::1"] =
      .ok (["", "10.0.0.1"], ["", "::1"], true) := by rfl
  exact ⟨h, parseListeners_partition sampleListenLib h⟩

/-! ## The listeners of `newServer` -/

theorem mem_listenAll {network : String} {addrs : List String} {l : Listener} :
    l ∈ listenAll lib network addrs ↔ ∃ a ∈ addrs, lib.listen network a = .ok l := by
  simp only [listenAll, List.mem_filterMap]
  refine exists_congr fun a => and_congr_right fun _ => ?_
  cases lib.listen network a <;> simp [Except.toOption]

/-- No listener is left exactly when every `net.Listen` call on an address's networks fails. -/
theorem listenAll_eq_nil_iff {addrs : List String} :
    listenAll lib "tcp4" (addrs.filter (lib.filedOn ListenKind.onIPv4)) ++
        listenAll lib "tcp6" (addrs.filter (lib.filedOn ListenKind.onIPv6)) = [] ↔
      ∀ a ∈ addrs, ∀ l, (lib.filedOn ListenKind.onIPv4 a → lib.listen "tcp4" a ≠ .ok l) ∧
        (lib.filedOn ListenKind.onIPv6 a → lib.listen "tcp6" a ≠ .ok l) := by
  rw [List.append_eq_nil]
  simp only [List.eq_nil_iff_forall_not_mem, mem_listenAll, List.mem_filter]
  constructor
  · rintro ⟨h4, h6⟩ a ha l
    exact ⟨fun hf hl => h4 l ⟨a, ⟨ha, hf⟩, hl⟩, fun hf hl => h6 l ⟨a, ⟨ha, hf⟩, hl⟩⟩
  · intro h
    exact ⟨fun l ⟨a, ⟨ha, hf⟩, hl⟩ => (h a ha l).1 hf hl, fun l ⟨a, ⟨ha, hf⟩, hl⟩ => (h a ha l).2 hf hl⟩

/-- With listening on, the listener setup of `newServer` succeeds exactly when every address has a
    kind and some `net.Listen` call succeeds, and returns the IPv4 listeners first, each address in
    its place in the list. -/
theorem newServerListeners_eq_ok_iff {addrs : List String} {ls : List Listener} :
    newServerListeners lib false addrs = .ok ls ↔ lib.AllKinded addrs ∧ ls ≠ [] ∧
      ls = listenAll lib "tcp4" (addrs.filter (lib.filedOn ListenKind.onIPv4)) ++
        listenAll lib "tcp6" (addrs.filter (lib.filedOn ListenKind.onIPv6)) := by
  simp only [newServerListeners, Bool.false_eq_true, if_false]
  cases h : parseListeners lib addrs with
  | error e =>
    rw [parseListeners_eq_kinds, map_eq_error_iff] at h
    exact ⟨fun h' => (by cases h'), fun ⟨hall, _⟩ => (lib.not_allKinded_of_kinds_eq_error h hall).elim⟩
  | ok r =>
    obtain ⟨hall, rfl⟩ := (parseListeners_eq_ok_iff lib).1 h
    simp only [bind, Except.bind, hall, true_and]
    split_ifs with hnil <;> rw [List.length_eq_zero] at hnil
    · exact ⟨fun h' => (by cases h'), fun ⟨hne, hls⟩ => hne (hls.trans hnil)⟩
    · exact ⟨fun h' => by cases h'; exact ⟨hnil, rfl⟩, fun ⟨_, hls⟩ => by rw [hls]; rfl⟩

/-- With listening on, the listener setup of `newServer` fails with the error of the first address
    without a kind, or, when every address has one, with `"no valid listen address"` when no
    `net.Listen` call on an address's networks succeeds. -/
theorem newServerListeners_eq_error_iff {addrs : List String} {e : String} :
    newServerListeners lib false addrs = .error e ↔
      (∃ pre addr post, addrs = pre ++ addr :: post ∧ lib.AllKinded pre ∧
        lib.listenKind addr = .error e) ∨
      (lib.AllKinded addrs ∧
        (∀ a ∈ addrs, ∀ l, (lib.filedOn ListenKind.onIPv4 a → lib.listen "tcp4" a ≠ .ok l) ∧
          (lib.filedOn ListenKind.onIPv6 a → lib.listen "tcp6" a ≠ .ok l)) ∧
        e = "no valid listen address") := by
  simp only [newServerListeners, Bool.false_eq_true, if_false]
  rw [← lib.kinds_eq_error]
  cases h : parseListeners lib addrs with
  | error e' =>
    rw [parseListeners_eq_kinds, map_eq_error_iff] at h
    simp only [h, lib.not_allKinded_of_kinds_eq_error h, false_and, or_false]
    exact ⟨fun h' => by cases h'; rfl, fun h' => by cases h'; rfl⟩
  | ok r =>
    obtain ⟨hall, rfl⟩ := (parseListeners_eq_ok_iff lib).1 h
    rw [parseListeners_eq_kinds] at h
    have hkinds : lib.kinds addrs ≠ .error e := fun he => by rw [he] at h; cases h
    simp only [bind, Except.bind, hall, hkinds, true_and, false_or, ← listenAll_eq_nil_iff]
    split_ifs with hnil <;> rw [List.length_eq_zero] at hnil
    · exact ⟨fun h' => ⟨hnil, by cases h'; rfl⟩, fun ⟨_, he⟩ => by rw [he]⟩
    · exact ⟨fun h' => (by cases h'), fun ⟨hn, _⟩ => (hnil hn).elim⟩

end FactomCode
