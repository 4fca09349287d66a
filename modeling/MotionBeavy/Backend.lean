import MotionBeavy.Gates

/-
Module: MotionBeavy.Backend
Purpose: The party backend of the ABYN code under src/ (ABYN::ABYNBackend) and its hello
  exchange. The constructor initializes the randomness generator of every configured party;
  InitializeCommunicationHandlers gives every other party a communication handler;
  SendHelloToOthers hands each of them, through Send, one hello message; VerifyHelloMessages
  logs whether every handler accepted the hello it received. Calls run in
  EStateM BackendError ABYNBackend, so that a throw keeps the writes made before it, as C++
  does; a call through a null pointer, which the C++ code does not guard against, ends the run
  with nullPointer. When every other party is configured, the constructor followed by
  InitializeCommunicationHandlers and SendHelloToOthers never throws and leaves exactly one
  hello message with each other party's handler and none for this party. Without
  InitializeCommunicationHandlers, SendHelloToOthers throws std::out_of_range at the first
  other party and sends nothing.
Trusted boundary: the configuration (GetNumOfParties is the number of party slots, GetParty
  a slot, which may be empty), a party's address, its socket's ports and the seed its
  InitializeMyRandomnessGenerator draws (GetSeed returns a copy of it), the communication
  handler (SendMessage queues the message; VerifyHelloMessage is an argument),
  BuildHelloMessage (the record of its arguments), ABYN_VERSION (an argument) and the logger
  (a list of entries) are not under src/.
Main exports: ABYN.ABYNBackend, ABYN.ABYNBackend.construct,
  ABYN.ABYNBackend.initializeCommunicationHandlers, ABYN.ABYNBackend.send,
  ABYN.ABYNBackend.sendHelloToOthers, ABYN.ABYNBackend.verifyHelloMessages,
  ABYN.ABYNBackend.initializeCommunicationHandlers_run, ABYN.ABYNBackend.sendHelloToOthers_run,
  ABYN.ABYNBackend.verifyHelloMessages_eq, ABYN.ABYNBackend.hello_exchange,
  ABYN.ABYNBackend.hello_before_handlers
-/

namespace MotionBeavy

namespace ABYN

/-! ### The backend's state -/

/-- A configured party (ABYN::Party): the address and socket ports the debug line of
InitializeCommunicationHandlers prints, the seed its InitializeMyRandomnessGenerator draws,
and the seed of its randomness generator once that has run. -/
structure Party where
  ip : String
  localPort : Nat
  remotePort : Nat
  freshSeed : List UInt8
  myRandomnessGenerator : Option (List UInt8) := none
deriving Repr, DecidableEq

/-- InitializeMyRandomnessGenerator. -/
def Party.initializeMyRandomnessGenerator (party : Party) : Party :=
  { party with myRandomnessGenerator := some party.freshSeed }

/-- What the backend reads of its ABYNConfiguration: its own id, one slot per party (an empty
slot is a nullptr) and OnlineAfterSetup. -/
structure Configuration where
  myId : Nat
  parties : List (Option Party)
  onlineAfterSetup : Bool
deriving Repr, DecidableEq

/-- GetNumOfParties. -/
def Configuration.numOfParties (config : Configuration) : Nat :=
  config.parties.length

/-- GetParty(i); none is a nullptr. -/
def Configuration.getParty (config : Configuration) (i : Nat) : Option Party :=
  config.parties[i]?.join

/-- GetParty(i)->GetMyRandomnessGenerator()->GetSeed(); none where one of the two pointers is
null. -/
def Configuration.getSeed (config : Configuration) (i : Nat) : Option (List UInt8) :=
  (config.getParty i).bind Party.myRandomnessGenerator

/-- A hello message, as BuildHelloMessage is given it. -/
structure HelloMessage where
  sourceId : Nat
  destinationId : Nat
  numOfParties : Nat
  inputSharingSeed : Option (List UInt8)
  onlineAfterSetup : Bool
  abynVersion : Nat
deriving Repr, DecidableEq

/-- A PartyCommunicationHandler: the party it talks to and the messages SendMessage has queued
with it. -/
structure CommunicationHandler where
  party : Nat
  sent : List HelloMessage := []
deriving Repr, DecidableEq

/-- The levels of the logger's entries. -/
inductive LogLevel where
  | debug
  | info
  | error
deriving Repr, DecidableEq

/-- How a backend call ends early: the std::runtime_error Send throws, the std::out_of_range
of std::vector::at, or a call through a null pointer. -/
inductive BackendError where
  | runtimeError (what : String)
  | outOfRange
  | nullPointer
deriving Repr, DecidableEq

/-- ABYN::ABYNBackend: its configuration, share_inputs_, communication_handlers_ (an empty
slot is a nullptr) and the entries handed to the logger of abyn_core_. -/
structure ABYNBackend where
  config : Configuration
  shareInputs : Bool
  communicationHandlers : List (Option CommunicationHandler)
  log : List (LogLevel × String)
deriving Repr, DecidableEq

namespace ABYNBackend

/-- The backend after its logger got an entry. -/
def logged (backend : ABYNBackend) (level : LogLevel) (message : String) : ABYNBackend :=
  { backend with log := backend.log ++ [(level, message)] }

/-- The backend after slot i of communication_handlers_ got handler. -/
def setHandler (backend : ABYNBackend) (i : Nat) (handler : CommunicationHandler) :
    ABYNBackend :=
  { backend with communicationHandlers := backend.communicationHandlers.set i (some handler) }

@[simp] theorem logged_config (backend : ABYNBackend) (level : LogLevel) (message : String) :
    (backend.logged level message).config = backend.config := rfl

@[simp] theorem logged_shareInputs (backend : ABYNBackend) (level : LogLevel) (message : String) :
    (backend.logged level message).shareInputs = backend.shareInputs := rfl

@[simp] theorem logged_communicationHandlers (backend : ABYNBackend) (level : LogLevel)
    (message : String) :
    (backend.logged level message).communicationHandlers = backend.communicationHandlers := rfl

@[simp] theorem setHandler_config (backend : ABYNBackend) (i : Nat) (handler : CommunicationHandler) :
    (backend.setHandler i handler).config = backend.config := rfl

@[simp] theorem setHandler_shareInputs (backend : ABYNBackend) (i : Nat)
    (handler : CommunicationHandler) :
    (backend.setHandler i handler).shareInputs = backend.shareInputs := rfl

@[simp] theorem setHandler_log (backend : ABYNBackend) (i : Nat) (handler : CommunicationHandler) :
    (backend.setHandler i handler).log = backend.log := rfl

@[simp] theorem length_setHandler (backend : ABYNBackend) (i : Nat) (handler : CommunicationHandler) :
    (backend.setHandler i handler).communicationHandlers.length =
      backend.communicationHandlers.length := List.length_set ..

/-! ### The calls -/

/-- ABYNBackend::ABYNBackend: every configured party initializes its randomness generator
(SetLogger only hands it the logger); no handler exists yet. share_inputs_ is initialized
outside src/. -/
def construct (config : Configuration) (shareInputs : Bool) : ABYNBackend where
  config := { config with
    parties := config.parties.map (Option.map Party.initializeMyRandomnessGenerator) }
  shareInputs := shareInputs
  communicationHandlers := []
  log := []

/-- std::vector::resize(count, value). -/
def resize {α : Type} (xs : List α) (count : Nat) (value : α) : List α :=
  xs.take count ++ List.replicate (count - xs.length) value

/-- The debug line InitializeCommunicationHandlers logs for party i. -/
def commHandlerMessage (myId i : Nat) (party : Party) : String :=
  "Party #" ++ toString myId ++ " creates CommHandler for Party #" ++ toString i ++
    " with end ip " ++ party.ip ++ ", local port " ++ toString party.localPort ++
    " and remote port " ++ toString party.remotePort

/-- The body of InitializeCommunicationHandlers' loop for a party i other than this one: the
debug line, which reads GetParty(i), then communication_handlers_.at(i) gets a new handler. -/
def createHandler (i : Nat) : EStateM BackendError ABYNBackend Unit := do
  let backend ← get
  let some party := backend.config.getParty i | throw .nullPointer
  set (backend.logged .debug (commHandlerMessage backend.config.myId i party))
  if backend.communicationHandlers.length ≤ i then throw .outOfRange
  modify (·.setHandler i { party := i })

/-- The loop of InitializeCommunicationHandlers over the party ids. -/
def handlersLoop : List Nat → EStateM BackendError ABYNBackend Unit
  | [] => pure ()
  | i :: rest => do
      if i = (← get).config.myId then
        handlersLoop rest
      else
        createHandler i
        handlersLoop rest

/-- communication_handlers_.resize(GetNumOfParties(), nullptr). -/
def resizeHandlers (backend : ABYNBackend) : ABYNBackend :=
  { backend with
    communicationHandlers := resize backend.communicationHandlers backend.config.numOfParties none }

/-- ABYNBackend::InitializeCommunicationHandlers. -/
def initializeCommunicationHandlers : EStateM BackendError ABYNBackend Unit := do
  modify resizeHandlers
  handlersLoop (List.range (← get).config.numOfParties)

/-- ABYNBackend::Send: never to this party, and through communication_handlers_.at(party_id). -/
def send (party_id : Nat) (message : HelloMessage) : EStateM BackendError ABYNBackend Unit := do
  let backend ← get
  if party_id = backend.config.myId then throw (.runtimeError "Want to send message to myself")
  let some slot := backend.communicationHandlers[party_id]? | throw .outOfRange
  let some handler := slot | throw .nullPointer
  set (backend.setHandler party_id { handler with sent := handler.sent ++ [message] })

/-- The body of SendHelloToOthers' loop for a destination other than this party: the seed of
the destination's generator when inputs are shared, then Send of BuildHelloMessage. -/
def sendHello (abynVersion destination_id : Nat) : EStateM BackendError ABYNBackend Unit := do
  let backend ← get
  let seed ← if backend.shareInputs then
      match backend.config.getSeed destination_id with
      | some seed => pure (some seed)
      | none => throw .nullPointer
    else pure none
  send destination_id ⟨backend.config.myId, destination_id, backend.config.numOfParties, seed,
    backend.config.onlineAfterSetup, abynVersion⟩

/-- The loop of SendHelloToOthers over the destination ids. -/
def helloLoop (abynVersion : Nat) : List Nat → EStateM BackendError ABYNBackend Unit
  | [] => pure ()
  | destination_id :: rest => do
      if destination_id = (← get).config.myId then
        helloLoop abynVersion rest
      else
        sendHello abynVersion destination_id
        helloLoop abynVersion rest

/-- ABYNBackend::SendHelloToOthers. -/
def sendHelloToOthers (abynVersion : Nat) : EStateM BackendError ABYNBackend Unit := do
  modify (·.logged .info "Send hello message to other parties")
  helloLoop abynVersion (List.range (← get).config.numOfParties)

/-- ABYNBackend::VerifyHelloMessages: success &= VerifyHelloMessage() over the handlers, so
every handler is asked, then one log entry. -/
def verifyHelloMessages (verifyHelloMessage : CommunicationHandler → Bool)
    (backend : ABYNBackend) : ABYNBackend :=
  let success := backend.communicationHandlers.foldl
    (fun success slot => match slot with
      | some handler => success && verifyHelloMessage handler
      | none => success) true
  if !success then backend.logged .error "Hello message verification failed"
  else backend.logged .info "Successfully verified hello messages"

/-! ### What the constructor leaves -/

section Construct

variable (config : Configuration) (shareInputs : Bool)

@[simp] theorem construct_myId : (construct config shareInputs).config.myId = config.myId := rfl

@[simp] theorem construct_onlineAfterSetup :
    (construct config shareInputs).config.onlineAfterSetup = config.onlineAfterSetup := rfl

@[simp] theorem construct_shareInputs : (construct config shareInputs).shareInputs = shareInputs :=
  rfl

@[simp] theorem construct_communicationHandlers :
    (construct config shareInputs).communicationHandlers = [] := rfl

@[simp] theorem construct_log : (construct config shareInputs).log = [] := rfl

@[simp] theorem numOfParties_construct :
    (construct config shareInputs).config.numOfParties = config.numOfParties :=
  List.length_map ..

@[simp] theorem getParty_construct (i : Nat) :
    (construct config shareInputs).config.getParty i =
      (config.getParty i).map Party.initializeMyRandomnessGenerator := by
  simp only [construct, Configuration.getParty, List.getElem?_map]
  cases config.parties[i]? <;> rfl

/-- After the constructor, the seed of a configured party's generator is the one it drew. -/
@[simp] theorem getSeed_construct (i : Nat) :
    (construct config shareInputs).config.getSeed i = (config.getParty i).map Party.freshSeed := by
  simp only [Configuration.getSeed, getParty_construct]
  cases config.getParty i <;> rfl

end Construct

/-! ### InitializeCommunicationHandlers -/

/-- The debug entry InitializeCommunicationHandlers logs for party i, if it logs one. -/
def commHandlerEntry (config : Configuration) (i : Nat) : Option (LogLevel × String) :=
  if i = config.myId then none
  else (config.getParty i).map fun party => (.debug, commHandlerMessage config.myId i party)

@[simp] theorem commHandlerEntry_construct (config : Configuration) (shareInputs : Bool) :
    commHandlerEntry (construct config shareInputs).config = commHandlerEntry config := by
  funext i
  simp only [commHandlerEntry, construct_myId, getParty_construct, Option.map_map]
  rfl

/-- The backend once the loop has created the handlers of the parties in is. -/
def withHandlers (backend : ABYNBackend) (is : List Nat) : ABYNBackend :=
  { backend with
    communicationHandlers := backend.communicationHandlers.mapIdx fun i slot =>
      if i ∈ is ∧ i ≠ backend.config.myId then some { party := i } else slot
    log := backend.log ++ is.filterMap (commHandlerEntry backend.config) }

@[simp] theorem getElem?_withHandlers (backend : ABYNBackend) (is : List Nat) (i : Nat) :
    (backend.withHandlers is).communicationHandlers[i]? =
      backend.communicationHandlers[i]?.map fun slot =>
        if i ∈ is ∧ i ≠ backend.config.myId then some { party := i } else slot :=
  List.getElem?_mapIdx ..

@[simp] theorem resizeHandlers_config (backend : ABYNBackend) :
    backend.resizeHandlers.config = backend.config := rfl

@[simp] theorem resizeHandlers_shareInputs (backend : ABYNBackend) :
    backend.resizeHandlers.shareInputs = backend.shareInputs := rfl

@[simp] theorem resizeHandlers_log (backend : ABYNBackend) :
    backend.resizeHandlers.log = backend.log := rfl

@[simp] theorem withHandlers_config (backend : ABYNBackend) (is : List Nat) :
    (backend.withHandlers is).config = backend.config := rfl

@[simp] theorem withHandlers_shareInputs (backend : ABYNBackend) (is : List Nat) :
    (backend.withHandlers is).shareInputs = backend.shareInputs := rfl

/-- The constructor leaves no handler, so the resize makes one empty slot per party. -/
@[simp] theorem resizeHandlers_construct (config : Configuration) (shareInputs : Bool) :
    (construct config shareInputs).resizeHandlers.communicationHandlers =
      List.replicate config.numOfParties none := by
  simp [resizeHandlers, resize]

theorem withHandlers_nil (backend : ABYNBackend) : backend.withHandlers [] = backend := by
  cases backend
  simp [withHandlers, List.ext_getElem?_iff, List.getElem?_mapIdx]

theorem withHandlers_cons_myId (backend : ABYNBackend) (rest : List Nat) :
    backend.withHandlers (backend.config.myId :: rest) = backend.withHandlers rest := by
  simp only [withHandlers, List.filterMap_cons, commHandlerEntry, ↓reduceIte, List.mem_cons,
    ABYNBackend.mk.injEq, true_and, and_true]
  refine List.ext_getElem? fun j => ?_
  by_cases hj : j = backend.config.myId <;> simp [List.getElem?_mapIdx, hj]

theorem withHandlers_cons {backend : ABYNBackend} {i : Nat} {party : Party} (rest : List Nat)
    (hme : i ≠ backend.config.myId) (hparty : backend.config.getParty i = some party)
    (hi : i < backend.communicationHandlers.length) :
    ((backend.logged .debug (commHandlerMessage backend.config.myId i party)).setHandler i
        { party := i }).withHandlers rest = backend.withHandlers (i :: rest) := by
  simp only [withHandlers, setHandler, logged, ABYNBackend.mk.injEq, true_and]
  constructor
  · refine List.ext_getElem? fun j => ?_
    by_cases hj : j = i
    · subst hj
      simp [List.getElem?_mapIdx, List.getElem?_set, hi, hme]
    · simp [List.getElem?_mapIdx, List.getElem?_set, Ne.symm hj, hj]
  · simp [commHandlerEntry, hme, hparty]

theorem createHandler_run {backend : ABYNBackend} {i : Nat} {party : Party}
    (hparty : backend.config.getParty i = some party) (hi : i < backend.communicationHandlers.length) :
    (createHandler i).run backend =
      .ok () ((backend.logged .debug (commHandlerMessage backend.config.myId i party)).setHandler i
        { party := i }) := by
  simp only [createHandler, pure_bind, run_bind, run_get, hparty, Nat.not_le.mpr hi, ↓reduceIte,
    run_set, run_modify]

/-- The loop over is, when every party of is other than this one is configured and has a slot:
every such party gets a new handler and a debug line. -/
theorem handlersLoop_run : ∀ (is : List Nat) (backend : ABYNBackend),
    (∀ i ∈ is, i ≠ backend.config.myId →
      (backend.config.getParty i).isSome ∧ i < backend.communicationHandlers.length) →
    (handlersLoop is).run backend = .ok () (backend.withHandlers is)
  | [], backend, _ => by rw [withHandlers_nil]; rfl
  | i :: rest, backend, hready => by
      by_cases hme : i = backend.config.myId
      · simp only [handlersLoop, run_bind, run_get, if_pos hme]
        rw [handlersLoop_run rest backend fun j hj => hready j (.tail _ hj), hme,
          withHandlers_cons_myId]
      · obtain ⟨hparty, hi⟩ := hready i (.head _) hme
        obtain ⟨party, hparty⟩ := Option.isSome_iff_exists.mp hparty
        simp only [handlersLoop, run_bind, run_get, if_neg hme, createHandler_run hparty hi]
        rw [handlersLoop_run rest _ fun j hj => by simpa using hready j (.tail _ hj),
          withHandlers_cons rest hme hparty hi]

theorem length_resize {α : Type} (xs : List α) (count : Nat) (value : α) :
    (resize xs count value).length = count := by
  simp only [resize, List.length_append, List.length_take, List.length_replicate]
  omega

/-- InitializeCommunicationHandlers, when every party other than this one is configured: one slot
per party, and a new handler and a debug line for every other party. -/
theorem initializeCommunicationHandlers_run (backend : ABYNBackend)
    (hparties : ∀ i < backend.config.numOfParties, i ≠ backend.config.myId →
      (backend.config.getParty i).isSome) :
    initializeCommunicationHandlers.run backend =
      .ok () (backend.resizeHandlers.withHandlers (List.range backend.config.numOfParties)) := by
  simp only [initializeCommunicationHandlers, run_bind, run_modify, run_get]
  refine handlersLoop_run _ _ fun i hi hme => ?_
  rw [List.mem_range] at hi
  exact ⟨hparties i hi hme, by rwa [resizeHandlers, length_resize]⟩

/-! ### SendHelloToOthers -/

/-- The hello message SendHelloToOthers builds for destination_id. -/
def helloMessage (config : Configuration) (shareInputs : Bool) (abynVersion destination_id : Nat) :
    HelloMessage :=
  ⟨config.myId, destination_id, config.numOfParties,
    if shareInputs then config.getSeed destination_id else none, config.onlineAfterSetup,
    abynVersion⟩

/-- What the body of the hello loop needs at a destination: a handler, and the seed of an
initialized generator when inputs are shared. -/
def HelloReady (backend : ABYNBackend) (destination_id : Nat) : Prop :=
  (∃ handler, backend.communicationHandlers[destination_id]? = some (some handler)) ∧
    (backend.shareInputs → (backend.config.getSeed destination_id).isSome)

/-- The backend once the loop has handed the hello messages to the destinations in ds. -/
def withHellos (backend : ABYNBackend) (abynVersion : Nat) (ds : List Nat) : ABYNBackend :=
  { backend with
    communicationHandlers := backend.communicationHandlers.mapIdx fun i slot =>
      if i ∈ ds ∧ i ≠ backend.config.myId then
        slot.map fun handler => { handler with
          sent := handler.sent ++ [helloMessage backend.config backend.shareInputs abynVersion i] }
      else slot }

theorem HelloReady.setHandler {backend : ABYNBackend} {d d' : Nat} (h : backend.HelloReady d')
    (hne : d ≠ d') (handler : CommunicationHandler) : (backend.setHandler d handler).HelloReady d' := by
  simpa [HelloReady, ABYNBackend.setHandler, List.getElem?_set, hne] using h

@[simp] theorem getElem?_withHellos (backend : ABYNBackend) (abynVersion : Nat) (ds : List Nat)
    (i : Nat) :
    (backend.withHellos abynVersion ds).communicationHandlers[i]? =
      backend.communicationHandlers[i]?.map fun slot =>
        if i ∈ ds ∧ i ≠ backend.config.myId then
          slot.map fun handler => { handler with
            sent := handler.sent ++ [helloMessage backend.config backend.shareInputs abynVersion i] }
        else slot :=
  List.getElem?_mapIdx ..

theorem withHellos_nil (backend : ABYNBackend) (abynVersion : Nat) :
    backend.withHellos abynVersion [] = backend := by
  cases backend
  simp [withHellos, List.ext_getElem?_iff, List.getElem?_mapIdx]

theorem withHellos_cons_myId (backend : ABYNBackend) (abynVersion : Nat) (rest : List Nat) :
    backend.withHellos abynVersion (backend.config.myId :: rest) =
      backend.withHellos abynVersion rest := by
  simp only [withHellos, List.mem_cons, ABYNBackend.mk.injEq, true_and, and_true]
  refine List.ext_getElem? fun j => ?_
  by_cases hj : j = backend.config.myId <;> simp [List.getElem?_mapIdx, hj]

theorem withHellos_cons {backend : ABYNBackend} {abynVersion d : Nat} {rest : List Nat}
    {handler : CommunicationHandler} (hd : d ∉ rest) (hme : d ≠ backend.config.myId)
    (hhandler : backend.communicationHandlers[d]? = some (some handler)) :
    (backend.setHandler d { handler with
        sent := handler.sent ++ [helloMessage backend.config backend.shareInputs abynVersion d] }
      ).withHellos abynVersion rest = backend.withHellos abynVersion (d :: rest) := by
  have hlt : d < backend.communicationHandlers.length := (List.getElem?_eq_some_iff.mp hhandler).1
  simp only [withHellos, setHandler, ABYNBackend.mk.injEq, true_and, and_true]
  refine List.ext_getElem? fun j => ?_
  by_cases hj : j = d
  · subst hj
    simp [List.getElem?_mapIdx, List.getElem?_set, hlt, hd, hme,
      (List.getElem?_eq_some_iff.mp hhandler).2]
  · simp [List.getElem?_mapIdx, List.getElem?_set, Ne.symm hj, hj]

theorem sendHello_run {backend : ABYNBackend} {abynVersion d : Nat}
    {handler : CommunicationHandler} (hme : d ≠ backend.config.myId)
    (hhandler : backend.communicationHandlers[d]? = some (some handler))
    (hseed : backend.shareInputs → (backend.config.getSeed d).isSome) :
    (sendHello abynVersion d).run backend =
      .ok () (backend.setHandler d { handler with
        sent := handler.sent ++ [helloMessage backend.config backend.shareInputs abynVersion d] }) := by
  cases hs : backend.shareInputs
  · simp only [sendHello, send, pure_bind, run_bind, run_get, hs, Bool.false_eq_true, ↓reduceIte,
      hme, hhandler, run_set, helloMessage]
  · obtain ⟨seed, hseed⟩ := Option.isSome_iff_exists.mp (hseed hs)
    simp only [sendHello, send, pure_bind, run_bind, run_get, hs, ↓reduceIte, hseed, hme, hhandler,
      run_set, helloMessage]

/-- Without a slot for the destination, Send throws std::out_of_range and changes nothing. -/
theorem sendHello_run_of_none {backend : ABYNBackend} {abynVersion d : Nat}
    (hme : d ≠ backend.config.myId) (hnone : backend.communicationHandlers[d]? = none)
    (hseed : backend.shareInputs → (backend.config.getSeed d).isSome) :
    (sendHello abynVersion d).run backend = .error .outOfRange backend := by
  cases hs : backend.shareInputs
  · simp only [sendHello, send, pure_bind, run_bind, run_get, hs, Bool.false_eq_true, ↓reduceIte,
      hme, hnone, run_throw]
  · obtain ⟨seed, hseed⟩ := Option.isSome_iff_exists.mp (hseed hs)
    simp only [sendHello, send, pure_bind, run_bind, run_get, hs, ↓reduceIte, hseed, hme, hnone,
      run_throw]

/-- The loop over destinations ds without repetition, when each of them other than this party
is ready: each gets one hello message. -/
theorem helloLoop_run (abynVersion : Nat) : ∀ (ds : List Nat) (backend : ABYNBackend), ds.Nodup →
    (∀ d ∈ ds, d ≠ backend.config.myId → backend.HelloReady d) →
    (helloLoop abynVersion ds).run backend = .ok () (backend.withHellos abynVersion ds)
  | [], backend, _, _ => by rw [withHellos_nil]; rfl
  | d :: rest, backend, hnodup, hready => by
      obtain ⟨hd, hrest⟩ := List.nodup_cons.mp hnodup
      by_cases hme : d = backend.config.myId
      · simp only [helloLoop, run_bind, run_get, if_pos hme]
        rw [helloLoop_run abynVersion rest backend hrest fun d' hd' => hready d' (.tail _ hd'), hme,
          withHellos_cons_myId]
      · obtain ⟨⟨handler, hhandler⟩, hseed⟩ := hready d (.head _) hme
        simp only [helloLoop, run_bind, run_get, if_neg hme, sendHello_run hme hhandler hseed]
        rw [helloLoop_run abynVersion rest _ hrest, withHellos_cons hd hme hhandler]
        intro d' hd' hme'
        exact (hready d' (.tail _ hd') hme').setHandler (by rintro rfl; exact hd hd') _

/-- From a backend without handlers, the loop throws std::out_of_range at the first destination
other than this party, and changes nothing. -/
theorem helloLoop_run_of_nil (abynVersion : Nat) : ∀ (ds : List Nat) (backend : ABYNBackend),
    backend.communicationHandlers = [] → (∃ d ∈ ds, d ≠ backend.config.myId) →
    (∀ d ∈ ds, d ≠ backend.config.myId → backend.shareInputs → (backend.config.getSeed d).isSome) →
    (helloLoop abynVersion ds).run backend = .error .outOfRange backend
  | [], _, _, ⟨_, hd, _⟩, _ => absurd hd (List.not_mem_nil _)
  | d :: rest, backend, hnil, ⟨d', hd', hme'⟩, hseed => by
      by_cases hme : d = backend.config.myId
      · simp only [helloLoop, run_bind, run_get, if_pos hme]
        have hd'' : d' ∈ rest := (List.mem_cons.mp hd').resolve_left (hme ▸ hme')
        exact helloLoop_run_of_nil abynVersion rest backend hnil ⟨d', hd'', hme'⟩
          fun e he => hseed e (.tail _ he)
      · simp only [helloLoop, run_bind, run_get, if_neg hme,
          sendHello_run_of_none hme (by simp [hnil]) (hseed d (.head _) hme)]

/-- SendHelloToOthers, when every other party is ready: one log entry, then one hello message to
each other party. -/
theorem sendHelloToOthers_run (backend : ABYNBackend) (abynVersion : Nat)
    (hready : ∀ d < backend.config.numOfParties, d ≠ backend.config.myId → backend.HelloReady d) :
    (sendHelloToOthers abynVersion).run backend =
      .ok () ((backend.logged .info "Send hello message to other parties").withHellos abynVersion
        (List.range backend.config.numOfParties)) := by
  simp only [sendHelloToOthers, run_bind, run_modify, run_get]
  exact helloLoop_run abynVersion _ _ (List.nodup_range _) fun d hd =>
    hready d (List.mem_range.mp hd)

/-! ### VerifyHelloMessages -/

theorem foldl_verify (verifyHelloMessage : CommunicationHandler → Bool) :
    ∀ (slots : List (Option CommunicationHandler)) (success : Bool),
      slots.foldl (fun success slot => match slot with
          | some handler => success && verifyHelloMessage handler
          | none => success) success =
        (success && slots.all fun slot => slot.all verifyHelloMessage)
  | [], success => by simp
  | none :: slots, success => by simp [foldl_verify verifyHelloMessage slots]
  | some handler :: slots, success => by
      simp [foldl_verify verifyHelloMessage slots, Bool.and_assoc]

/-- VerifyHelloMessages logs success exactly when every handler accepts its hello message. -/
theorem verifyHelloMessages_eq (verifyHelloMessage : CommunicationHandler → Bool)
    (backend : ABYNBackend) :
    backend.verifyHelloMessages verifyHelloMessage =
      if backend.communicationHandlers.all fun slot => slot.all verifyHelloMessage then
        backend.logged .info "Successfully verified hello messages"
      else backend.logged .error "Hello message verification failed" := by
  simp only [verifyHelloMessages, foldl_verify, Bool.true_and]
  cases backend.communicationHandlers.all fun slot => slot.all verifyHelloMessage <;> rfl

/-! ### The hello exchange -/

/-- The hello exchange of one party. When every other party is configured, the constructor,
InitializeCommunicationHandlers and SendHelloToOthers never throw: the handlers are one slot per
party, none for this party, and for every other party i a handler holding exactly one hello
message, which names this party, i, the number of parties, the seed of i's generator when inputs
are shared, and OnlineAfterSetup; the log holds one debug line per other party, then the info
line. -/
theorem hello_exchange (config : Configuration) (shareInputs : Bool) (abynVersion : Nat)
    (hparties : ∀ i < config.numOfParties, i ≠ config.myId → (config.getParty i).isSome) :
    ∃ backend, (initializeCommunicationHandlers >>= fun _ => sendHelloToOthers abynVersion).run
        (construct config shareInputs) = .ok () backend ∧
      backend.communicationHandlers = (List.range config.numOfParties).map (fun i =>
        if i = config.myId then none
        else some { party := i, sent := [⟨config.myId, i, config.numOfParties,
          if shareInputs then (config.getParty i).map Party.freshSeed else none,
          config.onlineAfterSetup, abynVersion⟩] }) ∧
      backend.log = (List.range config.numOfParties).filterMap (commHandlerEntry config) ++
        [(.info, "Send hello message to other parties")] := by
  have hinit := initializeCommunicationHandlers_run (construct config shareInputs)
    (by simpa using hparties)
  rw [numOfParties_construct] at hinit
  have hready : ∀ d < config.numOfParties, d ≠ config.myId →
      ((construct config shareInputs).resizeHandlers.withHandlers
        (List.range config.numOfParties)).HelloReady d := by
    intro d hd hme
    exact ⟨⟨{ party := d }, by simp [hd, hme]⟩, fun _ => by simpa using hparties d hd hme⟩
  have hrun := sendHelloToOthers_run ((construct config shareInputs).resizeHandlers.withHandlers
    (List.range config.numOfParties)) abynVersion fun d hd hme =>
      hready d (by simpa using hd) (by simpa using hme)
  refine ⟨_, by rw [run_bind, hinit]; exact hrun, ?_, ?_⟩
  · refine List.ext_getElem? fun i => ?_
    by_cases hi : i < config.numOfParties
    · rw [List.getElem?_map, List.getElem?_range hi]
      rcases eq_or_ne i config.myId with rfl | hme <;>
        simp [List.getElem?_replicate, hi, helloMessage, *]
    · have hlen : (List.range config.numOfParties).length ≤ i := by simpa using Nat.not_lt.mp hi
      rw [List.getElem?_map, List.getElem?_eq_none hlen]
      simp [List.getElem?_replicate, hi]
  · simp [withHellos, withHandlers, logged]

/-- SendHelloToOthers needs InitializeCommunicationHandlers first: right after the constructor,
when some other party exists (and every other party is configured), it logs its info line and
throws std::out_of_range from communication_handlers_.at in Send, having sent nothing. -/
theorem hello_before_handlers (config : Configuration) (shareInputs : Bool) (abynVersion : Nat)
    (hparties : ∀ i < config.numOfParties, i ≠ config.myId → (config.getParty i).isSome)
    (hother : ∃ i < config.numOfParties, i ≠ config.myId) :
    (sendHelloToOthers abynVersion).run (construct config shareInputs) =
      .error .outOfRange
        ((construct config shareInputs).logged .info "Send hello message to other parties") := by
  obtain ⟨i, hi, hme⟩ := hother
  simp only [sendHelloToOthers, run_bind, run_modify, run_get]
  refine helloLoop_run_of_nil abynVersion _ _ rfl ⟨i, by simpa using hi, by simpa using hme⟩ ?_
  intro d hd hme' _
  simp only [List.mem_range, logged_config, numOfParties_construct, construct_myId] at hd hme'
  simpa using hparties d hd hme'

end ABYNBackend

open ABYNBackend

/-- Party 0 of two: party 1 is configured, the slot of party 0 itself is empty. -/
def twoPartyConfig : Configuration where
  myId := 0
  parties := [none, some { ip := "127.0.0.1", localPort := 7744, remotePort := 7745, freshSeed := [7] }]
  onlineAfterSetup := true

theorem hello_exchange_two_parties :
    (∀ i < twoPartyConfig.numOfParties, i ≠ twoPartyConfig.myId →
      (twoPartyConfig.getParty i).isSome) ∧
    ∃ backend, (initializeCommunicationHandlers >>= fun _ => sendHelloToOthers 1).run
        (construct twoPartyConfig true) = .ok () backend ∧
      backend.communicationHandlers = (List.range twoPartyConfig.numOfParties).map (fun i =>
        if i = twoPartyConfig.myId then none
        else some { party := i, sent := [⟨twoPartyConfig.myId, i, twoPartyConfig.numOfParties,
          if true then (twoPartyConfig.getParty i).map Party.freshSeed else none,
          twoPartyConfig.onlineAfterSetup, 1⟩] }) ∧
      backend.log = (List.range twoPartyConfig.numOfParties).filterMap
          (commHandlerEntry twoPartyConfig) ++
        [(.info, "Send hello message to other parties")] :=
  ⟨by decide, hello_exchange twoPartyConfig true 1 (by decide)⟩

theorem hello_before_handlers_two_parties :
    (∀ i < twoPartyConfig.numOfParties, i ≠ twoPartyConfig.myId →
      (twoPartyConfig.getParty i).isSome) ∧
    (∃ i < twoPartyConfig.numOfParties, i ≠ twoPartyConfig.myId) ∧
    (sendHelloToOthers 1).run (construct twoPartyConfig true) =
      .error .outOfRange
        ((construct twoPartyConfig true).logged .info "Send hello message to other parties") :=
  ⟨by decide, by decide, hello_before_handlers twoPartyConfig true 1 (by decide) (by decide)⟩

end ABYN

end MotionBeavy
