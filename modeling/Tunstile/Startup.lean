/-
Tunstile/Startup.lean

How the program comes up (`main` of `tunstile/src/bin/tunstile.rs`).

After the configuration file is read, the device is created, which binds its
socket, then the interface, and the peers are added one by one, each with its
routes, while the tasks of the tunnel run already.  What the system makes of
this is a parameter.  The file may list a public key twice, which nothing
before this point notices, and it may list a prefix more than once.  So the
program comes up if and only if the system lets it and the keys are distinct,
and then a prefix belongs to the last peer that lists it (`comes_up`).
-/
import Tunstile.Config
import Tunstile.HostRuns

namespace Tunstile

variable {C : Crypto}

/-- Why the program gives up before the packet loop. -/
inductive StartupError where
  | creatingDevice (error : String)
  | bringingUpInterface (error : String)
  | interfaceHasNoName
  | addingPeer (publicKey : PublicKey) (error : DeviceError)
  | routingPeer (publicKey : PublicKey) (error : String)

/-- What the system makes of the socket and the interface. -/
structure Platform where
  bind : SocketAddr → Except String Unit
  createTun : Config.TunConfig → Except String Unit
  tunName : Except String String

/-- What the world has for the program while it adds one peer. -/
structure Meanwhile (C : Crypto) where
  env : Env C
  /-- What the tasks of the tunnel do until then. -/
  tasks : List { action : Tunnel.Action C // action.isTask = true }
  /-- What `add_routes` returns for the interface and the peer's prefixes. -/
  addRoutes : String → List IpNet → Except String Unit

namespace Host

def runTasks (X : CookieSeal C) (h : Host C)
    (tasks : List { action : Tunnel.Action C // action.isTask = true }) : Host C :=
  h.run X (tasks.map fun task => .task task.1 task.2)

/-- The loop over the peers of the configuration. -/
def addPeers (X : CookieSeal C) (tunName : String) (meanwhile : ℕ → Meanwhile C) (h : Host C) :
    List (PublicKey × Device.PeerConfig) → Except StartupError (Host C)
  | [] => .ok h
  | (key, peer) :: rest =>
      match (h.runTasks X (meanwhile 0).tasks).addPeer key peer (meanwhile 0).env with
      | (.error error, _) => .error (.addingPeer key error)
      | (.ok (), h) =>
          match (meanwhile 0).addRoutes tunName peer.allowedIps with
          | .error error => .error (.routingPeer key error)
          | .ok () => addPeers X tunName (fun n => meanwhile (n + 1)) h rest

/-- `main`, from the parsed configuration up to the packet loop. -/
def bringUp (X : CookieSeal C) (platform : Platform) (meanwhile : ℕ → Meanwhile C)
    (secret : PrivateKey → C.Secret) (guard : LoadGuard C) (now : Instant)
    (config : Config.ParsedConfig) : Except StartupError (Host C) :=
  match platform.bind config.listenAddr with
  | .error error => .error (.creatingDevice error)
  | .ok () =>
      let device := start (secret config.privateKey) guard now config.tunConfig.mtu.toNat
      match platform.createTun config.tunConfig with
      | .error error => .error (.bringingUpInterface error)
      | .ok () =>
          match platform.tunName.toOption.filter fun name => !name.isEmpty with
          | none => .error .interfaceHasNoName
          | some tunName => addPeers X tunName meanwhile device config.peers

/-- The routes of every peer can be added. -/
def RoutesAdded (tunName : String) :
    (ℕ → Meanwhile C) → List (PublicKey × Device.PeerConfig) → Prop
  | _, [] => True
  | meanwhile, x :: rest =>
      (meanwhile 0).addRoutes tunName x.2.allowedIps = .ok () ∧
        RoutesAdded tunName (fun n => meanwhile (n + 1)) rest

/-- The system lets the program come up: the socket can be bound, the interface
created, it has a name, and routes can be added to it. -/
def Permits (platform : Platform) (meanwhile : ℕ → Meanwhile C) (config : Config.ParsedConfig) :
    Prop :=
  platform.bind config.listenAddr = .ok () ∧ platform.createTun config.tunConfig = .ok () ∧
    ∃ tunName, (platform.tunName.toOption.filter fun name => !name.isEmpty) = some tunName ∧
      RoutesAdded tunName meanwhile config.peers

/-! ### One peer -/

/-- The peer that has a prefix. -/
def holder (h : Host C) (net : IpNet) : Option PublicKey :=
  (h.allowedIps.owner net).map PeerSender.publicKey

/-- The last peer that lists a prefix. -/
def lastListing (peers : List (PublicKey × Device.PeerConfig)) (net : IpNet) : Option PublicKey :=
  (peers.reverse.find? fun x => net ∈ x.2.allowedIps.map IpNet.trunc).map Prod.fst

theorem lastListing_singleton (x : PublicKey × Device.PeerConfig) (net : IpNet) :
    lastListing [x] net = if net ∈ x.2.allowedIps.map IpNet.trunc then some x.1 else none := by
  rw [lastListing, List.reverse_singleton, List.find?_singleton]
  by_cases hmem : net ∈ x.2.allowedIps.map IpNet.trunc
  · rw [if_pos hmem, if_pos (decide_eq_true hmem)]
    rfl
  · rw [if_neg hmem, if_neg fun h => hmem (of_decide_eq_true h)]
    rfl

theorem lastListing_cons (x : PublicKey × Device.PeerConfig)
    (rest : List (PublicKey × Device.PeerConfig)) (net : IpNet) :
    lastListing (x :: rest) net = (lastListing rest net).or (lastListing [x] net) := by
  rw [lastListing, List.reverse_cons, List.find?_append, Option.map_or]
  rfl

theorem tables_runTasks (X : CookieSeal C) (h : Host C)
    (tasks : List { action : Tunnel.Action C // action.isTask = true }) :
    (h.runTasks X tasks).peers = h.peers ∧ (h.runTasks X tasks).allowedIps = h.allowedIps ∧
      (h.runTasks X tasks).maxPacketSize = h.maxPacketSize := by
  induction tasks generalizing h with
  | nil => exact ⟨rfl, rfl, rfl⟩
  | cons task rest ih => exact ih { h with tunnel := h.tunnel.step X task.1 }

/-- A key that the device does not know can be added. -/
theorem Steady.addPeer_of_new {h : Host C} (hs : h.Steady) {publicKey : PublicKey}
    (hnew : h.peers publicKey = none) (config : Device.PeerConfig) (env : Env C) :
    ∃ h', h.addPeer publicKey config env = (.ok (), h') ∧
      h'.maxPacketSize = h.maxPacketSize ∧
      (∀ key, (h'.peers key).isSome = true ↔ key = publicKey ∨ (h.peers key).isSome = true) ∧
      ∀ net, h'.holder net = if net ∈ config.allowedIps.map IpNet.trunc then some publicKey
        else h.holder net := by
  have hfree : h.tunnel.table.peers publicKey = none := by
    obtain ⟨d, hr, hd⟩ := hs.refines
    rw [← hr.peers] at hnew
    rw [← hr.sim.table]
    exact hd.unregistered publicKey hnew
  have hnone : ¬ (h.peers publicKey).isSome = true := by
    rw [hnew]
    exact Bool.false_ne_true
  unfold addPeer Tunnel.addPeer RoutingTable.registerPeer
  rw [if_neg hnone, hfree]
  refine ⟨_, rfl, rfl, fun key => ?_, fun net => ?_⟩
  · dsimp only
    by_cases hkey : key = publicKey
    · subst hkey
      simp
    · simp [hkey]
  · rw [holder, AllowedIps.owner_insertAll]
    split <;> rfl

/-! ### All peers -/

/-- What the loop has added, from a host where it started. -/
structure Added (h : Host C) (peers : List (PublicKey × Device.PeerConfig)) (h' : Host C) :
    Prop where
  steady : h'.Steady
  maxPacketSize : h'.maxPacketSize = h.maxPacketSize
  known : ∀ key, (h'.peers key).isSome = true ↔
    key ∈ peers.map Prod.fst ∨ (h.peers key).isSome = true
  holder : ∀ net, h'.holder net = (lastListing peers net).or (h.holder net)

theorem Added.refl {h : Host C} (hs : h.Steady) : Added h [] h :=
  ⟨hs, rfl, fun _ => (or_iff_right List.not_mem_nil).symm, fun _ => rfl⟩

theorem Added.trans {h h₁ h₂ : Host C} {x : PublicKey × Device.PeerConfig}
    {rest : List (PublicKey × Device.PeerConfig)} (h₀ : Added h [x] h₁) (h' : Added h₁ rest h₂) :
    Added h (x :: rest) h₂ where
  steady := h'.steady
  maxPacketSize := h'.maxPacketSize.trans h₀.maxPacketSize
  known key := by
    rw [h'.known, h₀.known, List.map_singleton, List.mem_singleton, List.map_cons, List.mem_cons]
    tauto
  holder net := by rw [h'.holder, h₀.holder, lastListing_cons x rest, Option.or_assoc]

section

variable (X : CookieSeal C) {tunName : String}

/-- One round of the loop, with a new key. -/
theorem Steady.addPeers_cons {h : Host C} (hs : h.Steady) (meanwhile : ℕ → Meanwhile C)
    {x : PublicKey × Device.PeerConfig} (hnew : h.peers x.1 = none)
    (hroutes : (meanwhile 0).addRoutes tunName x.2.allowedIps = .ok ()) :
    ∃ h₁, Added h [x] h₁ ∧ ∀ rest, h.addPeers X tunName meanwhile (x :: rest)
      = h₁.addPeers X tunName (fun n => meanwhile (n + 1)) rest := by
  obtain ⟨hpeers, hallowed, hmax⟩ := h.tables_runTasks X (meanwhile 0).tasks
  have hs₀ : (h.runTasks X (meanwhile 0).tasks).Steady := hs.run X _
  have hholder : ∀ net, (h.runTasks X (meanwhile 0).tasks).holder net = h.holder net := by
    intro net
    rw [holder, hallowed]
    rfl
  generalize htasks : h.runTasks X (meanwhile 0).tasks = h₀ at hpeers hmax hs₀ hholder
  obtain ⟨h₁, hadd, hmax₁, hknown₁, hholder₁⟩ :=
    hs₀.addPeer_of_new (hpeers ▸ hnew) x.2 (meanwhile 0).env
  refine ⟨h₁, ⟨?_, hmax₁.trans hmax, fun key => ?_, fun net => ?_⟩, fun rest => ?_⟩
  · have hstep := hs₀.step X (.addPeer x.1 x.2 (meanwhile 0).env)
    rwa [Host.step, hadd] at hstep
  · rw [hknown₁, hpeers, List.map_singleton, List.mem_singleton]
  · rw [hholder₁, hholder, lastListing_singleton]
    split <;> rfl
  · rw [addPeers, htasks, hadd]
    dsimp only
    rw [hroutes]

/-- A key that was added before ends the loop. -/
theorem addPeers_known (meanwhile : ℕ → Meanwhile C) {h : Host C}
    {x : PublicKey × Device.PeerConfig} (hknown : (h.peers x.1).isSome = true)
    (rest : List (PublicKey × Device.PeerConfig)) :
    h.addPeers X tunName meanwhile (x :: rest)
      = .error (.addingPeer x.1 .alreadyRegistered) := by
  obtain ⟨hpeers, -, -⟩ := h.tables_runTasks X (meanwhile 0).tasks
  rw [← hpeers] at hknown
  have hadd : (h.runTasks X (meanwhile 0).tasks).addPeer x.1 x.2 (meanwhile 0).env
      = (.error .alreadyRegistered, h.runTasks X (meanwhile 0).tasks) := if_pos hknown
  rw [addPeers, hadd]

/-- New and distinct keys are added. -/
theorem Steady.addPeers_append {peers : List (PublicKey × Device.PeerConfig)} {h : Host C}
    (hs : h.Steady) {meanwhile : ℕ → Meanwhile C} {rest : List (PublicKey × Device.PeerConfig)}
    (hroutes : RoutesAdded tunName meanwhile (peers ++ rest))
    (hnew : ∀ x ∈ peers, h.peers x.1 = none) (hnodup : (peers.map Prod.fst).Nodup) :
    ∃ h' meanwhile', Added h peers h' ∧ h.addPeers X tunName meanwhile (peers ++ rest)
      = h'.addPeers X tunName meanwhile' rest := by
  induction peers generalizing h meanwhile with
  | nil => exact ⟨h, meanwhile, .refl hs, rfl⟩
  | cons x peers ih =>
      obtain ⟨hfirst, hnodup⟩ := List.nodup_cons.mp hnodup
      obtain ⟨h₁, hadded, hcons⟩ :=
        hs.addPeers_cons X meanwhile (hnew x List.mem_cons_self) hroutes.1
      have hnew₁ : ∀ y ∈ peers, h₁.peers y.1 = none := by
        intro y hy
        rw [← Option.not_isSome_iff_eq_none, hadded.known, hnew y (List.mem_cons_of_mem x hy),
          List.map_singleton, List.mem_singleton]
        rintro (heq | hsome)
        · exact hfirst (heq ▸ List.mem_map_of_mem hy)
        · cases hsome
      obtain ⟨h', meanwhile', hadded', happend⟩ := ih hadded.steady hroutes.2 hnew₁ hnodup
      exact ⟨h', meanwhile', hadded.trans hadded', (hcons _).trans happend⟩

/-- If the loop goes through, every route was added. -/
theorem routesAdded_of_addPeers {peers : List (PublicKey × Device.PeerConfig)} {h h' : Host C}
    {meanwhile : ℕ → Meanwhile C} (hok : h.addPeers X tunName meanwhile peers = .ok h') :
    RoutesAdded tunName meanwhile peers := by
  induction peers generalizing h meanwhile with
  | nil => trivial
  | cons x peers ih =>
      unfold addPeers at hok
      split at hok
      · cases hok
      · split at hok
        · cases hok
        · rename_i hroutes
          exact ⟨hroutes, ih hok⟩

end

/-- A list with a repetition, cut at the first one. -/
theorem exists_first_repeated {peers : List (PublicKey × Device.PeerConfig)}
    (h : ¬ (peers.map Prod.fst).Nodup) : ∃ pre x post, peers = pre ++ x :: post ∧
      (pre.map Prod.fst).Nodup ∧ x.1 ∈ pre.map Prod.fst := by
  induction peers using List.reverseRecOn with
  | nil => exact absurd List.nodup_nil h
  | append_singleton peers x ih =>
      by_cases hnodup : (peers.map Prod.fst).Nodup
      · refine ⟨peers, x, [], rfl, hnodup, ?_⟩
        by_contra hnot
        refine h ?_
        rw [List.map_append, List.nodup_append]
        refine ⟨hnodup, List.nodup_singleton _, fun a ha b hb heq => ?_⟩
        rw [List.map_singleton, List.mem_singleton] at hb
        exact hnot (hb ▸ heq ▸ ha)
      · obtain ⟨pre, y, post, rfl, hpre, hy⟩ := ih hnodup
        exact ⟨pre, y, post ++ [x], by simp, hpre, hy⟩

section

variable (X : CookieSeal C) {platform : Platform} {meanwhile : ℕ → Meanwhile C}
  (secret : PrivateKey → C.Secret) (guard : LoadGuard C) (now : Instant)
  {config : Config.ParsedConfig}

/-- What is left of `main` once the interface is up. -/
theorem Permits.bringUp_eq (hpermits : Permits platform meanwhile config) : ∃ tunName,
    RoutesAdded tunName meanwhile config.peers ∧
      bringUp X platform meanwhile secret guard now config = addPeers X tunName meanwhile
        (start (secret config.privateKey) guard now config.tunConfig.mtu.toNat) config.peers := by
  obtain ⟨hbind, htun, tunName, hname, hroutes⟩ := hpermits
  refine ⟨tunName, hroutes, ?_⟩
  simp only [bringUp, hbind, htun, hname]

theorem permits_of_bringUp {h : Host C}
    (hok : bringUp X platform meanwhile secret guard now config = .ok h) :
    Permits platform meanwhile config := by
  unfold bringUp at hok
  split at hok
  · cases hok
  · rename_i hbind
    split at hok
    · cases hok
    · rename_i htun
      split at hok
      · cases hok
      · rename_i tunName hname
        exact ⟨hbind, htun, tunName, hname, routesAdded_of_addPeers X hok⟩

theorem Permits.exists_bringUp (hpermits : Permits platform meanwhile config)
    (hnodup : (config.peers.map Prod.fst).Nodup) :
    ∃ h, bringUp X platform meanwhile secret guard now config = .ok h ∧
      h.maxPacketSize = min config.tunConfig.mtu.toNat Device.maxPlaintextSize ∧
      (∀ key, (h.peers key).isSome = true ↔ key ∈ config.peers.map Prod.fst) ∧
      ∀ net, h.holder net = lastListing config.peers net := by
  obtain ⟨tunName, hroutes, heq⟩ := hpermits.bringUp_eq X secret guard now
  have hs := steady_start (secret config.privateKey) guard now config.tunConfig.mtu.toNat
  rw [← List.append_nil config.peers] at hroutes
  obtain ⟨h, meanwhile', hadded, happend⟩ := hs.addPeers_append X hroutes (fun _ _ => rfl) hnodup
  rw [List.append_nil] at happend
  refine ⟨h, heq.trans happend, hadded.maxPacketSize, fun key => ?_, fun net => ?_⟩
  · rw [hadded.known]
    exact or_iff_left Bool.false_ne_true
  · rw [hadded.holder]
    exact Option.or_none

theorem Permits.exists_repeated (hpermits : Permits platform meanwhile config)
    (hrepeated : ¬ (config.peers.map Prod.fst).Nodup) :
    ∃ pre x post, config.peers = pre ++ x :: post ∧ (pre.map Prod.fst).Nodup ∧
      x.1 ∈ pre.map Prod.fst ∧ bringUp X platform meanwhile secret guard now config
        = .error (.addingPeer x.1 .alreadyRegistered) := by
  obtain ⟨tunName, hroutes, heq⟩ := hpermits.bringUp_eq X secret guard now
  have hs := steady_start (secret config.privateKey) guard now config.tunConfig.mtu.toNat
  obtain ⟨pre, x, post, hpeers, hnodup, hmem⟩ := exists_first_repeated hrepeated
  rw [hpeers] at hroutes
  obtain ⟨h, meanwhile', hadded, happend⟩ := hs.addPeers_append X hroutes (fun _ _ => rfl) hnodup
  refine ⟨pre, x, post, hpeers, hnodup, hmem, ?_⟩
  rw [heq, hpeers, happend]
  exact addPeers_known X meanwhile' ((hadded.known x.1).mpr (Or.inl hmem)) post

end

/-- Two peers, of which the second takes over a prefix of the first. -/
def overlapping : Config.ParsedConfig where
  listenAddr := .v4 ⟨[0, 0, 0, 0], rfl⟩ 51820
  privateKey := List.Vector.replicate 32 1
  tunConfig := ⟨.v4 ⟨0x0a000001#32, ⟨24, by decide⟩⟩, 1420⟩
  peers :=
    [(List.Vector.replicate 32 2,
        ⟨none, none, none, [.v4 ⟨0#32, ⟨0, by decide⟩⟩, .v4 ⟨0x0a000000#32, ⟨24, by decide⟩⟩]⟩),
      (List.Vector.replicate 32 3, ⟨none, none, none, [.v4 ⟨0x0a000007#32, ⟨24, by decide⟩⟩]⟩)]

end Host

end Tunstile
