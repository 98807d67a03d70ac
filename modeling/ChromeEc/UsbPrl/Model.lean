import ChromeEc.UsbPrl.Header

/- The protocol layer of USB Power Delivery, `common/usbc/usb_prl_sm.c`, for one port
  with `CONFIG_USB_PD_REV30` and `CONFIG_USB_PD_EXTENDED_MESSAGES`, that is no VPD.

  Four state machines without parent states run one after the other in `prl_run`,
  between them the reception of one message. A change of state runs the exit
  function of the old state and the entry function of the new one, and nothing when
  they are the same; an entry function may change the state again. The functions
  below follow that order, so each entry function comes after those of the states
  it moves to.

  `tx_chk_buf` and `rx_chk_buf` are neighbours in `struct pd_message`, and one
  memory here: a write past the end of the first goes into the second.

  What belongs to others is an input. `Env` holds the answers to the questions that
  a machine asks, the timers that ran out, and how the policy engine reacts when it
  is told of an error or of a reset: with a list of calls of its own into the
  protocol layer, made before its function returns. The other functions of the
  policy engine only set its flags. What the protocol layer does to others is a list
  of events, which also tells when a message was taken from the TCPM, when bytes were
  copied into the extended message buffer and what happened to the message ids.

  Correspondence (C ↔ Lean):
    `struct rx_chunked`, `tx_chunked`, .. ↔ `RxChunked`, `TxChunked`, ..
    `set_state_rch`, `set_state_tch`, .. ↔ `setStateRch`, `setStateTch`, ..
    the entry, run and exit functions ↔ the functions of the same name
    `run_state` on the four contexts ↔ `prlHrRun`, `rchRun`, `tchRun`, `prlTxRun`
    `prl_rx_wait_for_phy_message` ↔ `prlRxWaitForPhyMessage`
    `prl_run` ↔ `prlRun`
    `tcpm_enqueue_message` ↔ `Input.enqueueMessage`
    the interface to the policy engine ↔ `PrlCall`, `PeCall` -/
namespace ChromeEc.UsbPrl
open Lib

/-! ## State -/

/-- `PRL_FLAGS_*`. Each machine has its own set. -/
structure PrlFlags where
  txComplete : Bool := false
  sinkNg : Bool := false
  waitSinkOk : Bool := false
  txError : Bool := false
  peHardReset : Bool := false
  hardResetComplete : Bool := false
  portPartnerHardReset : Bool := false
  msgXmit : Bool := false
  msgReceived : Bool := false
  abort : Bool := false
  chunking : Bool := false
  ignoreDataRole : Bool := false
  deriving DecidableEq

/-- `enum usb_prl_tx_state`. -/
inductive PrlTxState where
  | phyLayerReset
  | waitForMessageRequest
  | layerResetForTransmit
  | waitForPhyResponse
  | srcSourceTx
  | snkStartAms
  | srcPending
  | snkPending
  | discardMessage
  deriving DecidableEq

/-- `enum usb_prl_hr_state`. -/
inductive PrlHrState where
  | waitForRequest
  | resetLayer
  | waitForPhyHardResetComplete
  | waitForPeHardResetComplete
  deriving DecidableEq

/-- `enum usb_rch_state`. -/
inductive RchState where
  | waitForMessageFromProtocolLayer
  | passUpMessage
  | processingExtendedMessage
  | requestingChunk
  | waitingChunk
  | reportError
  deriving DecidableEq

/-- `enum usb_tch_state`. -/
inductive TchState where
  | waitForMessageRequestFromPe
  | waitForTransmissionComplete
  | constructChunkedMessage
  | sendingChunkedMessage
  | waitChunkRequest
  | messageReceived
  | messageSent
  | reportError
  deriving DecidableEq

inductive SmLocalState where
  | init
  | run
  | paused
  deriving DecidableEq

/-- The timers of `PR_TIMER_RANGE`. -/
inductive PrTimer where
  | chunkSenderResponse
  | chunkSenderRequest
  | hardResetComplete
  | sinkTx
  | tcpcTxTimeout
  deriving DecidableEq

structure RxChunked where
  state : RchState
  flags : PrlFlags
  error : PeError

structure TxChunked where
  state : TchState
  flags : PrlFlags
  error : PeError

structure ProtocolLayerRx where
  sop : SopStar
  msgId : SopStar → Int

structure ProtocolLayerTx where
  state : PrlTxState
  flags : PrlFlags
  lastXmitType : TcpciMsgType
  msgIdCounter : SopStar → BitVec 32
  xmitStatus : TcpcTransmitComplete

structure ProtocolHardReset where
  state : PrlHrState
  flags : PrlFlags

/-- `struct pd_message`. `chkBuf` is `tx_chk_buf` and, from byte
`CHK_BUF_SIZE_BYTES` on, `rx_chk_buf`. -/
structure PdMessage where
  flags : PrlFlags
  xmitType : TcpciMsgType
  msgType : BitVec 8
  rev : SopStar → PdRevType
  dataObjs : Nat
  chkBuf : Nat → UInt8
  chunkNumberExpected : Nat
  numBytesReceived : Nat
  ext : Bool
  chunkNumberToSend : Nat
  sendOffset : Nat

def PdMessage.rxChkBuf (p : PdMessage) (i : Nat) : UInt8 := p.chkBuf (CHK_BUF_SIZE_BYTES + i)

/-- `GET_EXT_HEADER(pdmsg[port].rx_chk_buf[0])`. -/
def PdMessage.exhdr (p : PdMessage) : BitVec 16 := le16 (p.rxChkBuf 0) (p.rxChkBuf 1)

/-- `struct extended_msg`. The buffer is the memory from its first byte on. -/
structure ExtendedMsg where
  header : PdHeader
  len : Nat
  buf : Nat → UInt8

def ExtendedMsg.bytes (m : ExtendedMsg) : List UInt8 := window m.buf 0 m.len

/-- The functions of the policy engine that the protocol layer calls.
`pe_message_received` comes with the message that is in `rx_emsg` at that time. -/
inductive PeCall where
  | messageReceived (header : PdHeader) (bytes : List UInt8)
  | messageSent
  | reportDiscard
  | reportError (e : PeError) (type : TcpciMsgType)
  | gotSoftReset
  | gotHardReset
  | hardResetSent
  deriving DecidableEq

/-- The functions of the protocol layer that others call, and the policy engine
writing to `tx_emsg` before it asks for a message to be sent. -/
inductive PrlCall where
  | pdTransmitComplete (status : TcpcTransmitComplete)
  | pdExecuteHardReset
  | prlExecuteHardReset
  | prlSetDataRoleCheck (enable : Bool)
  | prlHardResetComplete
  | writeTxEmsg (len : Nat) (buf : Nat → UInt8)
  | prlSendCtrlMsg (type : TcpciMsgType) (msg : BitVec 8)
  | prlSendDataMsg (type : TcpciMsgType) (msg : BitVec 8)
  | prlSendExtDataMsg (type : TcpciMsgType) (msg : BitVec 8)
  | prlSetDefaultPdRevision
  | prlResetSoft
  | prlSetRev (type : SopStar) (rev : PdRevType)
  | prlResetMsgIds (type : SopStar)

/-- What the protocol layer does, in order. -/
inductive Event where
  | dequeue (m : RxMessage)
  | firstChunk
  | chunk (offset n : Nat)
  | copyChunkToExt (n : Nat)
  | pe (call : PeCall)
  | transmit (type : TcpciMsgType) (header : BitVec 16) (data : List UInt8)
  | incrementMsgid (type : SopStar)
  | resetMsgIds (type : SopStar)
  | setRxEnable (enable : Bool)
  | selectSrcCollisionRp (sinkTxOk : Bool)
  | updateCc
  | notifyHardReset
  | startErrorRecovery
  deriving DecidableEq

structure Env where
  peInLocalAms : Bool
  peInFrsMode : Bool
  powerRole : PdPowerRole
  dataRole : PdDataRole
  cablePlug : PdCablePlug
  pdIsConnected : Bool
  cc1 : TcpcCcVoltageStatus
  cc2 : TcpcCcVoltageStatus
  elapsed : PrTimer → Bool
  react : PeCall → List PrlCall

/-- The state of a port: the machines, the messages that the TCPM has cached, the
timers that are enabled, and what was done so far. -/
structure St where
  localState : SmLocalState
  rch : RxChunked
  tch : TxChunked
  prlRx : ProtocolLayerRx
  prlTx : ProtocolLayerTx
  prlHr : ProtocolHardReset
  pdmsg : PdMessage
  rxEmsg : ExtendedMsg
  txEmsg : ExtendedMsg
  timers : PrTimer → Bool
  cachedMessages : List RxMessage
  events : List Event

/-- Static data before the first run. -/
def boot : St where
  localState := .init
  rch := ⟨.waitForMessageFromProtocolLayer, {}, .rchChunked⟩
  tch := ⟨.waitForMessageRequestFromPe, {}, .rchChunked⟩
  prlRx := ⟨.sop, fun _ => 0⟩
  prlTx := ⟨.phyLayerReset, {}, .sopStar .sop, fun _ => 0, .wait⟩
  prlHr := ⟨.waitForRequest, {}⟩
  pdmsg := ⟨{}, .sopStar .sop, 0, fun _ => .rev10, 0, fun _ => 0, 0, 0, false, 0, 0⟩
  rxEmsg := ⟨⟨.sop, 0⟩, 0, fun _ => 0⟩
  txEmsg := ⟨⟨.sop, 0⟩, 0, fun _ => 0⟩
  timers := fun _ => false
  cachedMessages := []
  events := []

def emit (ev : Event) (s : St) : St := { s with events := s.events ++ [ev] }

def pdTimerEnable (t : PrTimer) (s : St) : St :=
  { s with timers := fun u => if u = t then true else s.timers u }

def pdTimerDisable (t : PrTimer) (s : St) : St :=
  { s with timers := fun u => if u = t then false else s.timers u }

def pdTimerIsExpired (e : Env) (t : PrTimer) (s : St) : Bool := s.timers t && e.elapsed t

/-- `a - b` on `uint32_t`. -/
def sub32 (a b : Nat) : Nat := (2 ^ 32 + a - b) % 2 ^ 32

/-- `a + b` on `uint32_t`. -/
def add32 (a b : Nat) : Nat := (a + b) % 2 ^ 32

/-! ## Flags -/

def setRch (f : PrlFlags → PrlFlags) (s : St) : St :=
  { s with rch := { s.rch with flags := f s.rch.flags } }

def setTch (f : PrlFlags → PrlFlags) (s : St) : St :=
  { s with tch := { s.tch with flags := f s.tch.flags } }

def setPrlTx (f : PrlFlags → PrlFlags) (s : St) : St :=
  { s with prlTx := { s.prlTx with flags := f s.prlTx.flags } }

def setPrlHr (f : PrlFlags → PrlFlags) (s : St) : St :=
  { s with prlHr := { s.prlHr with flags := f s.prlHr.flags } }

def setPdmsg (f : PrlFlags → PrlFlags) (s : St) : St :=
  { s with pdmsg := { s.pdmsg with flags := f s.pdmsg.flags } }

/-! ## `set_state`

`goto` is the change to a state, given the entry function of the state. -/

def prlTxExit (s : St) : St :=
  match s.prlTx.state with
  | .waitForPhyResponse => pdTimerDisable .tcpcTxTimeout s
  | .srcPending => pdTimerDisable .sinkTx s
  | _ => s

def prlTxGoto (new : PrlTxState) (entry : St → St) (s : St) : St :=
  if s.prlTx.state = new then s
  else
    let s := prlTxExit s
    entry { s with prlTx := { s.prlTx with state := new } }

def rchExit (s : St) : St :=
  match s.rch.state with
  | .waitingChunk => pdTimerDisable .chunkSenderResponse s
  | _ => s

def rchGoto (new : RchState) (entry : St → St) (s : St) : St :=
  if s.rch.state = new then s
  else
    let s := rchExit s
    entry { s with rch := { s.rch with state := new } }

def tchExit (s : St) : St :=
  match s.tch.state with
  | .waitChunkRequest => pdTimerDisable .chunkSenderRequest s
  | _ => s

def tchGoto (new : TchState) (entry : St → St) (s : St) : St :=
  if s.tch.state = new then s
  else
    let s := tchExit s
    entry { s with tch := { s.tch with state := new } }

/-! ## The states that a reset goes to -/

def prlResetMsgIds (type : SopStar) (s : St) : St :=
  { s with
    prlTx := { s.prlTx with
      msgIdCounter := fun t => if t = type then 0 else s.prlTx.msgIdCounter t }
    prlRx := { s.prlRx with msgId := fun t => if t = type then -1 else s.prlRx.msgId t }
    events := s.events ++ [.resetMsgIds type] }

/-- The loop over all `SOP*` types. -/
def prlResetAllMsgIds (s : St) : St :=
  { s with
    prlTx := { s.prlTx with msgIdCounter := fun _ => 0 }
    prlRx := { s.prlRx with msgId := fun _ => -1 }
    events := s.events ++ SopStar.all.map .resetMsgIds }

def prlSetDefaultPdRevision (s : St) : St :=
  { s with pdmsg := { s.pdmsg with rev := fun _ => .rev30 } }

def prlTxWaitForMessageRequestEntry (s : St) : St :=
  { s with prlTx := { s.prlTx with xmitStatus := .unset } }

def prlTxPhyLayerResetEntry (e : Env) (s : St) : St :=
  prlTxGoto .waitForMessageRequest prlTxWaitForMessageRequestEntry
    (emit (.setRxEnable e.pdIsConnected) s)

def rchWaitForMessageFromProtocolLayerEntry (s : St) : St :=
  setRch (fun _ => { chunking := true }) (setPdmsg (fun f => { f with abort := false }) s)

def tchWaitForMessageRequestFromPeEntry (s : St) : St :=
  setTch (fun f => { f with chunking := true }) (setPdmsg (fun f => { f with abort := false }) s)

def toPrlTxPhyLayerReset (e : Env) : St → St := prlTxGoto .phyLayerReset (prlTxPhyLayerResetEntry e)

def toRchWait : St → St :=
  rchGoto .waitForMessageFromProtocolLayer rchWaitForMessageFromProtocolLayerEntry

def toTchWait : St → St :=
  tchGoto .waitForMessageRequestFromPe tchWaitForMessageRequestFromPeEntry

/-! ## Hard reset: the way into it and out of it -/

def prlHrWaitForPeHardResetCompleteExit (e : Env) (s : St) : St :=
  toTchWait (toRchWait (toPrlTxPhyLayerReset e s))

def prlHrExit (e : Env) (s : St) : St :=
  match s.prlHr.state with
  | .waitForPhyHardResetComplete => pdTimerDisable .hardResetComplete s
  | .waitForPeHardResetComplete => prlHrWaitForPeHardResetCompleteExit e s
  | _ => s

def prlHrGoto (e : Env) (new : PrlHrState) (entry : St → St) (s : St) : St :=
  if s.prlHr.state = new then s
  else
    let s := prlHrExit e s
    entry { s with prlHr := { s.prlHr with state := new } }

def prlHrWaitForRequestEntry (s : St) : St := setPrlHr (fun _ => {}) s

/-- What `prl_hr_reset_layer_entry` clears. -/
def prlHrClear (s : St) : St :=
  let s := setPdmsg (fun _ => {}) (setRch (fun _ => {}) (setTch (fun _ => {}) s))
  let s := emit (.setRxEnable false) (prlResetAllMsgIds s)
  emit .notifyHardReset (prlSetDefaultPdRevision s)

def prlHrResetLayerEntry (s : St) : St :=
  prlTxGoto .waitForMessageRequest prlTxWaitForMessageRequestEntry (prlHrClear s)

def toPrlHrResetLayer (e : Env) : St → St := prlHrGoto e .resetLayer prlHrResetLayerEntry

/-! ## Calls into the protocol layer -/

def prlIsRunning (s : St) : Bool := s.localState == .run

def pdExecuteHardReset (e : Env) (s : St) : St :=
  if prlIsRunning s then
    toPrlHrResetLayer e (setPrlHr (fun f => { f with portPartnerHardReset := true }) s)
  else s

def prlExecuteHardReset (e : Env) (s : St) : St :=
  if prlIsRunning s then
    toPrlHrResetLayer e (setPrlHr (fun f => { f with peHardReset := true }) s)
  else s

def prlSendCtrlMsg (type : TcpciMsgType) (msg : BitVec 8) (s : St) : St :=
  setTch (fun f => { f with msgXmit := true })
    { s with
      pdmsg := { s.pdmsg with xmitType := type, msgType := msg, dataObjs := 0, ext := false }
      txEmsg := { s.txEmsg with len := 0 } }

def prlSendDataMsg (type : TcpciMsgType) (msg : BitVec 8) (s : St) : St :=
  setTch (fun f => { f with msgXmit := true })
    { s with pdmsg := { s.pdmsg with xmitType := type, msgType := msg, ext := false } }

def prlSendExtDataMsg (type : TcpciMsgType) (msg : BitVec 8) (s : St) : St :=
  setTch (fun f => { f with msgXmit := true })
    { s with pdmsg := { s.pdmsg with xmitType := type, msgType := msg, ext := true } }

def prlSetRev (type : SopStar) (rev : PdRevType) (s : St) : St :=
  { s with pdmsg := { s.pdmsg with rev := fun t => if t = type then rev else s.pdmsg.rev t } }

def prlCall (e : Env) (s : St) : PrlCall → St
  | .pdTransmitComplete status => { s with prlTx := { s.prlTx with xmitStatus := status } }
  | .pdExecuteHardReset => pdExecuteHardReset e s
  | .prlExecuteHardReset => prlExecuteHardReset e s
  | .prlSetDataRoleCheck enable => setRch (fun f => { f with ignoreDataRole := !enable }) s
  | .prlHardResetComplete => setPrlHr (fun f => { f with hardResetComplete := true }) s
  | .writeTxEmsg len buf => { s with txEmsg := { s.txEmsg with len := len % 2 ^ 32, buf := buf } }
  | .prlSendCtrlMsg type msg => prlSendCtrlMsg type msg s
  | .prlSendDataMsg type msg => prlSendDataMsg type msg s
  | .prlSendExtDataMsg type msg => prlSendExtDataMsg type msg s
  | .prlSetDefaultPdRevision => prlSetDefaultPdRevision s
  | .prlResetSoft => { s with localState := .init }
  | .prlSetRev type rev => prlSetRev type rev s
  | .prlResetMsgIds type => prlResetMsgIds type s

/-- A call of the policy engine that changes its state, with what it does then. -/
def peCall (e : Env) (call : PeCall) (s : St) : St :=
  (e.react call).foldl (prlCall e) (emit (.pe call) s)

def peMessageReceived (s : St) : St :=
  emit (.pe (.messageReceived s.rxEmsg.header s.rxEmsg.bytes)) s

def peReportDiscard (s : St) : St := emit (.pe .reportDiscard) s

def peMessageSent (s : St) : St := emit (.pe .messageSent) s

/-! ## Protocol layer message transmission -/

def prlCopyMsgToBuffer (s : St) : St :=
  if s.txEmsg.len = 0 then
    { s with pdmsg := { s.pdmsg with dataObjs := 0 } }
  else
    let len := min s.txEmsg.len CHK_BUF_SIZE_BYTES
    { s with
      txEmsg := { s.txEmsg with len := len }
      pdmsg := { s.pdmsg with
        chkBuf := blit (blit s.pdmsg.chkBuf 0 (fun _ => 0) CHK_BUF_SIZE_BYTES) 0 s.txEmsg.buf len
        dataObjs := (len + 3) / 4 } }

def pdmsgXmitTypeIsRev30 (s : St) : Bool :=
  match s.pdmsg.xmitType with
  | .sopStar t => s.pdmsg.rev t == .rev30
  | _ => false

def isSopRev30 (s : St) : Bool := s.pdmsg.rev .sop == .rev30

def incrementMsgidCounter (s : St) : St :=
  match s.prlTx.lastXmitType with
  | .sopStar t =>
    { s with
      prlTx := { s.prlTx with
        msgIdCounter := fun u =>
          if u = t then (s.prlTx.msgIdCounter t + 1) &&& 7 else s.prlTx.msgIdCounter u }
      events := s.events ++ [.incrementMsgid t] }
  | _ => s

def getSopStarHeader (e : Env) (t : SopStar) (s : St) : BitVec 32 :=
  pdHeader s.pdmsg.msgType (if t = .sop then e.powerRole.code else e.cablePlug.code)
    (if t = .sop then e.dataRole.code else 0) (s.prlTx.msgIdCounter t)
    (BitVec.ofNat 32 s.pdmsg.dataObjs) (s.pdmsg.rev t).code s.pdmsg.ext

/-- The header that goes to `tcpm_transmit`, which takes 16 bits of it. -/
def txHeader (e : Env) (s : St) : BitVec 16 :=
  match s.pdmsg.xmitType with
  | .sopStar t => (getSopStarHeader e t s).setWidth 16
  | _ => 0

/-- `tcpm_transmit` with `tx_chk_buf`. -/
def tcpmTransmit (header : BitVec 16) (s : St) : St :=
  emit (.transmit s.pdmsg.xmitType header (window s.pdmsg.chkBuf 0 CHK_BUF_SIZE_BYTES)) s

def prlTxConstructMessage (e : Env) (s : St) : St :=
  tcpmTransmit (txHeader e s)
    (setPdmsg (fun f => { f with txComplete := false })
      { s with prlTx := { s.prlTx with lastXmitType := s.pdmsg.xmitType, xmitStatus := .wait } })

def prlTxDiscardMessageEntry (e : Env) (s : St) : St :=
  let s :=
    if s.prlTx.flags.msgXmit || s.prlTx.xmitStatus == .wait || s.prlTx.xmitStatus == .discarded then
      let s := setPrlTx (fun f => { f with msgXmit := false }) s
      peReportDiscard (if s.prlTx.xmitStatus ≠ .unset then incrementMsgidCounter s else s)
    else s
  toPrlTxPhyLayerReset e s

def prlTxSrcSourceTxEntry (s : St) : St := emit .updateCc (emit (.selectSrcCollisionRp false) s)

def prlTxLayerResetForTransmitEntry (s : St) : St :=
  match s.pdmsg.xmitType with
  | .sopStar t => prlResetMsgIds t s
  | _ => s

def prlTxEntry (e : Env) : PrlTxState → St → St
  | .phyLayerReset => prlTxPhyLayerResetEntry e
  | .waitForMessageRequest => prlTxWaitForMessageRequestEntry
  | .layerResetForTransmit => prlTxLayerResetForTransmitEntry
  | .waitForPhyResponse => pdTimerEnable .tcpcTxTimeout
  | .srcSourceTx => prlTxSrcSourceTxEntry
  | .snkStartAms => fun s => s
  | .srcPending => pdTimerEnable .sinkTx
  | .snkPending => fun s => s
  | .discardMessage => prlTxDiscardMessageEntry e

def setStatePrlTx (e : Env) (new : PrlTxState) : St → St := prlTxGoto new (prlTxEntry e new)

/-- The end that three run functions share: the message pending is sent, through
`PRL_TX_LAYER_RESET_FOR_TRANSMIT` if it is a soft reset. -/
def prlTxSendPending (e : Env) (s : St) : St :=
  let s := setPrlTx (fun f => { f with msgXmit := false }) s
  if s.pdmsg.msgType = PD_CTRL_SOFT_RESET ∧ s.txEmsg.len = 0 then
    setStatePrlTx e .layerResetForTransmit s
  else
    setStatePrlTx e .waitForPhyResponse (prlTxConstructMessage e s)

def prlTxWaitForMessageRequestRun (e : Env) (s : St) : St :=
  let s :=
    if e.peInLocalAms then s
    else
      let s :=
        if s.prlTx.flags.sinkNg then emit .updateCc (emit (.selectSrcCollisionRp true) s) else s
      setPrlTx (fun f => { f with sinkNg := false, waitSinkOk := false }) s
  if isSopRev30 s && e.peInLocalAms && !(s.prlTx.flags.sinkNg || s.prlTx.flags.waitSinkOk) then
    if e.powerRole = .source then
      setStatePrlTx e .srcSourceTx (setPrlTx (fun f => { f with sinkNg := true }) s)
    else
      setStatePrlTx e .snkStartAms (setPrlTx (fun f => { f with waitSinkOk := true }) s)
  else if s.prlTx.flags.msgXmit then prlTxSendPending e s
  else s

def prlTxSrcSourceTxRun (e : Env) (s : St) : St :=
  if s.prlTx.flags.msgXmit then setStatePrlTx e .srcPending s else s

def prlTxSnkStartAmsRun (e : Env) (s : St) : St :=
  if s.prlTx.flags.msgXmit then setStatePrlTx e .snkPending s else s

def prlTxLayerResetForTransmitRun (e : Env) (s : St) : St :=
  setStatePrlTx e .waitForPhyResponse (prlTxConstructMessage e s)

def prlTxWaitForPhyResponseRun (e : Env) (s : St) : St :=
  if s.prlTx.xmitStatus = .success then
    setStatePrlTx e .waitForMessageRequest
      (setPdmsg (fun f => { f with txComplete := true }) (incrementMsgidCounter s))
  else if pdTimerIsExpired e .tcpcTxTimeout s || s.prlTx.xmitStatus == .failed then
    setStatePrlTx e .waitForMessageRequest
      (incrementMsgidCounter (setPdmsg (fun f => { f with txError := true }) s))
  else s

def prlTxSrcPendingRun (e : Env) (s : St) : St :=
  if pdTimerIsExpired e .sinkTx s then prlTxSendPending e s else s

def prlTxSnkPendingRun (e : Env) (s : St) : St :=
  if e.peInFrsMode || e.cc1 == .rp30 || e.cc2 == .rp30 then prlTxSendPending e s else s

/-- `run_state(port, &prl_tx[port].ctx)`. -/
def prlTxRun (e : Env) (s : St) : St :=
  match s.prlTx.state with
  | .phyLayerReset => s
  | .waitForMessageRequest => prlTxWaitForMessageRequestRun e s
  | .layerResetForTransmit => prlTxLayerResetForTransmitRun e s
  | .waitForPhyResponse => prlTxWaitForPhyResponseRun e s
  | .srcSourceTx => prlTxSrcSourceTxRun e s
  | .snkStartAms => prlTxSnkStartAmsRun e s
  | .srcPending => prlTxSrcPendingRun e s
  | .snkPending => prlTxSnkPendingRun e s
  | .discardMessage => s

/-! ## Hard reset -/

def prlHrSendMsgToPhy (s : St) : St :=
  tcpmTransmit 0
    (setPdmsg (fun f => { f with txComplete := false })
      { s with
        pdmsg := { s.pdmsg with xmitType := .txHardReset }
        prlTx := { s.prlTx with xmitStatus := .unset } })

def prlHrEntry : PrlHrState → St → St
  | .waitForRequest => prlHrWaitForRequestEntry
  | .resetLayer => prlHrResetLayerEntry
  | .waitForPhyHardResetComplete => pdTimerEnable .hardResetComplete
  | .waitForPeHardResetComplete => fun s => s

def setStatePrlHr (e : Env) (new : PrlHrState) : St → St := prlHrGoto e new (prlHrEntry new)

def prlHrWaitForRequestRun (e : Env) (s : St) : St :=
  if s.prlHr.flags.peHardReset || s.prlHr.flags.portPartnerHardReset then
    setStatePrlHr e .resetLayer s
  else s

def prlHrResetLayerRun (e : Env) (s : St) : St :=
  if s.prlHr.flags.peHardReset then
    setStatePrlHr e .waitForPhyHardResetComplete (prlHrSendMsgToPhy s)
  else
    setStatePrlHr e .waitForPeHardResetComplete (peCall e .gotHardReset s)

def prlHrWaitForPhyHardResetCompleteRun (e : Env) (s : St) : St :=
  if s.pdmsg.flags.txComplete || pdTimerIsExpired e .hardResetComplete s then
    setStatePrlHr e .waitForPeHardResetComplete (emit (.pe .hardResetSent) s)
  else s

def prlHrWaitForPeHardResetCompleteRun (e : Env) (s : St) : St :=
  if s.prlHr.flags.hardResetComplete then setStatePrlHr e .waitForRequest s else s

/-- `run_state(port, &prl_hr[port].ctx)`. -/
def prlHrRun (e : Env) (s : St) : St :=
  match s.prlHr.state with
  | .waitForRequest => prlHrWaitForRequestRun e s
  | .resetLayer => prlHrResetLayerRun e s
  | .waitForPhyHardResetComplete => prlHrWaitForPhyHardResetCompleteRun e s
  | .waitForPeHardResetComplete => prlHrWaitForPeHardResetCompleteRun e s

/-! ## Chunked Rx -/

def copyChunkToExt (s : St) : St :=
  let n := s.rxEmsg.header.cnt * 4
  emit (.copyChunkToExt n)
    { s with
      pdmsg := { s.pdmsg with numBytesReceived := n }
      rxEmsg := { s.rxEmsg with len := n, buf := blit s.rxEmsg.buf 0 s.pdmsg.rxChkBuf n } }

def rchPassUpMessageEntry (s : St) : St := toRchWait (peMessageReceived s)

def rchRequestingChunkEntry (s : St) : St :=
  let p := s.pdmsg
  setPrlTx (fun f => { f with msgXmit := true })
    { s with
      pdmsg := { p with
        chkBuf := blit p.chkBuf 0 (wordBytes (pdExtHeader p.chunkNumberExpected true 0)) 4
        dataObjs := 1
        ext := true
        xmitType := .sopStar s.prlRx.sop } }

def rchReportErrorEntry (e : Env) (s : St) : St :=
  if s.rch.flags.msgReceived then
    let s := copyChunkToExt (setRch (fun f => { f with msgReceived := false }) s)
    let s := peMessageReceived s
    peCall e (.reportError .rchMsgRec (.sopStar s.prlRx.sop)) s
  else
    peCall e (.reportError s.rch.error (.sopStar s.prlRx.sop)) s

def rchEntry (e : Env) : RchState → St → St
  | .waitForMessageFromProtocolLayer => rchWaitForMessageFromProtocolLayerEntry
  | .passUpMessage => rchPassUpMessageEntry
  | .processingExtendedMessage => fun s => s
  | .requestingChunk => rchRequestingChunkEntry
  | .waitingChunk => pdTimerEnable .chunkSenderResponse
  | .reportError => rchReportErrorEntry e

def setStateRch (e : Env) (new : RchState) : St → St := rchGoto new (rchEntry e new)

/-- `rch[port].error` set and the change to `RCH_REPORT_ERROR`. -/
def rchFail (e : Env) (err : PeError) (s : St) : St :=
  setStateRch e .reportError { s with rch := { s.rch with error := err } }

def rchWaitForMessageFromProtocolLayerRun (e : Env) (s : St) : St :=
  if s.rch.flags.msgReceived then
    let s := setRch (fun f => { f with msgReceived := false }) s
    if pdmsgXmitTypeIsRev30 s && s.rxEmsg.header.ext then
      let chunked := pdExtHeaderChunked s.pdmsg.exhdr
      if s.rch.flags.chunking && chunked then
        setStateRch e .processingExtendedMessage
          (emit .firstChunk
            { s with pdmsg := { s.pdmsg with
              chunkNumberExpected := 0
              numBytesReceived := 0
              msgType := s.rxEmsg.header.type } })
      else if !s.rch.flags.chunking && !chunked then
        setStateRch e .passUpMessage (copyChunkToExt s)
      else
        rchFail e .rchChunked s
    else if !s.rxEmsg.header.ext then
      setStateRch e .passUpMessage (copyChunkToExt s)
    else
      rchFail e .rchChunked s
  else s

/-- `byte_num`: what is missing of the message, and no more than a chunk holds. -/
def byteNum (p : PdMessage) : Nat :=
  min (sub32 (pdExtHeaderDataSize p.exhdr) p.numBytesReceived) PD_MAX_EXTENDED_MSG_CHUNK_LEN

/-- Data of the chunk is appended to the message. -/
def rchAppend (s : St) : St :=
  let n := byteNum s.pdmsg
  let off := s.pdmsg.numBytesReceived
  emit (.chunk off n)
    { s with
      rxEmsg := { s.rxEmsg with
        buf := blit s.rxEmsg.buf off (fun i => s.pdmsg.rxChkBuf (2 + i)) n }
      pdmsg := { s.pdmsg with
        chunkNumberExpected := add32 s.pdmsg.chunkNumberExpected 1
        numBytesReceived := add32 off n } }

def rchProcessingExtendedMessageRun (e : Env) (s : St) : St :=
  if s.pdmsg.flags.abort then
    setStateRch e .waitForMessageFromProtocolLayer s
  else if pdExtHeaderChunkNum s.pdmsg.exhdr = s.pdmsg.chunkNumberExpected then
    if add32 s.pdmsg.numBytesReceived (byteNum s.pdmsg) > EXTENDED_BUFFER_SIZE then
      rchFail e .rchChunked s
    else
      let dataSize := pdExtHeaderDataSize s.pdmsg.exhdr
      let s := rchAppend s
      if s.pdmsg.numBytesReceived ≥ dataSize then
        setStateRch e .passUpMessage
          { s with rxEmsg := { s.rxEmsg with len := s.pdmsg.numBytesReceived } }
      else
        setStateRch e .requestingChunk s
  else
    rchFail e .rchChunked s

def rchRequestingChunkRun (e : Env) (s : St) : St :=
  if s.pdmsg.flags.txComplete then
    setStateRch e .waitingChunk (setPdmsg (fun f => { f with txComplete := false }) s)
  else if s.pdmsg.flags.txError then
    rchFail e .rchChunked s
  else if s.rch.flags.msgReceived then
    setStateRch e .waitingChunk s
  else s

def rchWaitingChunkRun (e : Env) (s : St) : St :=
  if s.rch.flags.msgReceived then
    let s := setPdmsg (fun f => { f with txComplete := false }) s
    if s.rxEmsg.header.ext then
      if pdExtHeaderReqChunk s.pdmsg.exhdr || !pdExtHeaderChunked s.pdmsg.exhdr then
        rchFail e .rchChunked s
      else
        setStateRch e .processingExtendedMessage (setRch (fun f => { f with msgReceived := false }) s)
    else s
  else if pdTimerIsExpired e .chunkSenderResponse s then
    rchFail e .rchChunkWaitTimeout s
  else s

def rchReportErrorRun (e : Env) (s : St) : St := setStateRch e .waitForMessageFromProtocolLayer s

/-- `run_state(port, &rch[port].ctx)`. -/
def rchRun (e : Env) (s : St) : St :=
  match s.rch.state with
  | .waitForMessageFromProtocolLayer => rchWaitForMessageFromProtocolLayerRun e s
  | .passUpMessage => s
  | .processingExtendedMessage => rchProcessingExtendedMessageRun e s
  | .requestingChunk => rchRequestingChunkRun e s
  | .waitingChunk => rchWaitingChunkRun e s
  | .reportError => rchReportErrorRun e s

/-! ## Chunked Tx -/

def tchMessageReceivedEntry (s : St) : St :=
  let s := setRch (fun f => { f with msgReceived := true }) s
  let s :=
    if s.tch.flags.msgXmit then
      peReportDiscard (setTch (fun f => { f with msgXmit := false }) s)
    else s
  { s with pdmsg := { s.pdmsg with dataObjs := 0 } }

/-- The test of the flag that four functions make: a message that was received goes
to chunked Rx, and otherwise they go on. -/
def tchIfMessageReceived (otherwise : St → St) (s : St) : St :=
  if s.tch.flags.msgReceived then
    tchGoto .messageReceived tchMessageReceivedEntry
      (setTch (fun f => { f with msgReceived := false }) s)
  else otherwise s

/-- The chunk put together in `tx_chk_buf`. The 28 bytes that are cleared start
behind the extended header and go on 2 bytes past the end. -/
def tchConstructChunk (s : St) : St :=
  let p := s.pdmsg
  let num := min ((2 ^ 32 + s.txEmsg.len - p.sendOffset) % 2 ^ 16) PD_MAX_EXTENDED_MSG_CHUNK_LEN
  let buf := blit p.chkBuf 0 (wordBytes (pdExtHeader p.chunkNumberToSend false s.txEmsg.len)) 2
  let buf := blit buf 2 (fun _ => 0) 28
  let buf := blit buf 2 (fun i => s.txEmsg.buf (p.sendOffset + i)) num
  setPrlTx (fun f => { f with msgXmit := true })
    { s with pdmsg := { p with
      chkBuf := buf, sendOffset := add32 p.sendOffset num, dataObjs := (num + 2 + 3) / 4 } }

def tchConstructChunkedMessageEntry (s : St) : St :=
  tchIfMessageReceived tchConstructChunk s

def tchWaitChunkRequestEntry (s : St) : St :=
  pdTimerEnable .chunkSenderRequest
    { s with pdmsg := { s.pdmsg with chunkNumberToSend := add32 s.pdmsg.chunkNumberToSend 1 } }

def tchMessageSentEntry (s : St) : St :=
  tchIfMessageReceived toTchWait (peMessageSent s)

def tchReportErrorEntry (e : Env) (s : St) : St :=
  tchIfMessageReceived toTchWait (peCall e (.reportError s.tch.error s.prlTx.lastXmitType) s)

def tchEntry (e : Env) : TchState → St → St
  | .waitForMessageRequestFromPe => tchWaitForMessageRequestFromPeEntry
  | .waitForTransmissionComplete => fun s => s
  | .constructChunkedMessage => tchConstructChunkedMessageEntry
  | .sendingChunkedMessage => fun s => s
  | .waitChunkRequest => tchWaitChunkRequestEntry
  | .messageReceived => tchMessageReceivedEntry
  | .messageSent => tchMessageSentEntry
  | .reportError => tchReportErrorEntry e

def setStateTch (e : Env) (new : TchState) : St → St := tchGoto new (tchEntry e new)

/-- `tch[port].error` set and the change to `TCH_REPORT_ERROR`. -/
def tchFail (e : Env) (err : PeError) (s : St) : St :=
  setStateTch e .reportError { s with tch := { s.tch with error := err } }

def tchWaitForMessageRequestFromPeRun (e : Env) (s : St) : St :=
  tchIfMessageReceived
    (fun s =>
      if s.tch.flags.msgXmit then
        let s := setTch (fun f => { f with msgXmit := false }) s
        if s.rch.state ≠ .waitForMessageFromProtocolLayer then tchFail e .tchXmit s
        else if pdmsgXmitTypeIsRev30 s && s.pdmsg.ext && s.tch.flags.chunking then
          setStateTch e .constructChunkedMessage
            { s with pdmsg := { s.pdmsg with sendOffset := 0, chunkNumberToSend := 0 } }
        else
          setStateTch e .waitForTransmissionComplete
            (setPrlTx (fun f => { f with msgXmit := true }) (prlCopyMsgToBuffer s))
      else s) s

def tchWaitForTransmissionCompleteRun (e : Env) (s : St) : St :=
  if s.pdmsg.flags.txComplete then
    setStateTch e .messageSent (setPdmsg (fun f => { f with txComplete := false }) s)
  else if s.pdmsg.flags.txError then
    tchFail e .tchXmit (setPdmsg (fun f => { f with txError := false }) s)
  else if s.tch.flags.msgReceived && s.prlTx.xmitStatus != .success then
    setStateTch e .messageReceived (setTch (fun f => { f with msgReceived := false }) s)
  else s

def tchConstructChunkedMessageRun (e : Env) (s : St) : St :=
  if s.pdmsg.flags.abort then setStateTch e .waitForMessageRequestFromPe s
  else setStateTch e .sendingChunkedMessage s

def tchSendingChunkedMessageRun (e : Env) (s : St) : St :=
  if s.pdmsg.flags.txError then tchFail e .tchXmit s
  else if s.txEmsg.len = s.pdmsg.sendOffset ∧ s.pdmsg.flags.txComplete then
    setStateTch e .messageSent (setPdmsg (fun f => { f with txComplete := false }) s)
  else
    tchIfMessageReceived
      (fun s =>
        if s.pdmsg.sendOffset < s.txEmsg.len ∧ s.pdmsg.flags.txComplete then
          setStateTch e .waitChunkRequest (setPdmsg (fun f => { f with txComplete := false }) s)
        else s) s

def tchWaitChunkRequestRun (e : Env) (s : St) : St :=
  if s.tch.flags.msgReceived then
    let s := setTch (fun f => { f with msgReceived := false }) s
    if s.rxEmsg.header.ext && pdExtHeaderReqChunk s.pdmsg.exhdr then
      if pdExtHeaderChunkNum s.pdmsg.exhdr = s.pdmsg.chunkNumberToSend then
        setStateTch e .constructChunkedMessage s
      else
        tchFail e .tchChunked s
    else
      setStateTch e .messageReceived s
  else if pdTimerIsExpired e .chunkSenderRequest s then
    setStateTch e .messageSent s
  else s

def tchMessageReceivedRun (e : Env) (s : St) : St := setStateTch e .waitForMessageRequestFromPe s

/-- `run_state(port, &tch[port].ctx)`. -/
def tchRun (e : Env) (s : St) : St :=
  match s.tch.state with
  | .waitForMessageRequestFromPe => tchWaitForMessageRequestFromPeRun e s
  | .waitForTransmissionComplete => tchWaitForTransmissionCompleteRun e s
  | .constructChunkedMessage => tchConstructChunkedMessageRun e s
  | .sendingChunkedMessage => tchSendingChunkedMessageRun e s
  | .waitChunkRequest => tchWaitChunkRequestRun e s
  | .messageReceived => tchMessageReceivedRun e s
  | .messageSent => s
  | .reportError => s

/-! ## Protocol layer message reception -/

/-- `tcpm_dequeue_message` and the fields that are set before the message is
looked at. -/
def takeMessage (m : RxMessage) (rest : List RxMessage) (s : St) : St :=
  emit (.dequeue m)
    { s with
      cachedMessages := rest
      pdmsg := { s.pdmsg with
        chkBuf := blit s.pdmsg.chkBuf CHK_BUF_SIZE_BYTES m.payload CHK_BUF_SIZE_BYTES }
      rxEmsg := { s.rxEmsg with header := m.header }
      prlRx := { s.prlRx with sop := m.header.sop } }

def prlRxSoftReset (e : Env) (type : SopStar) (s : St) : St :=
  peCall e .gotSoftReset
    (toTchWait (toRchWait (toPrlTxPhyLayerReset e (prlResetMsgIds type s))))

def PdHeader.isPing (h : PdHeader) : Bool := h.cnt == 0 && h.type == PD_CTRL_PING

/-- A pending transmission is discarded, unless the message is a ping. -/
def prlRxDiscard (e : Env) (h : PdHeader) (s : St) : St :=
  if !h.isPing && (s.prlTx.xmitStatus != .success || s.prlTx.flags.msgXmit) then
    setStatePrlTx e .discardMessage s
  else s

def storeMsgId (h : PdHeader) (s : St) : St :=
  { s with prlRx := { s.prlRx with
    msgId := fun t => if t = s.prlRx.sop then (h.id : Int) else s.prlRx.msgId t } }

/-- The message goes to the machine that it concerns. -/
def prlRxRoute (h : PdHeader) (s : St) : St :=
  if h.isPing then
    peMessageReceived { s with rxEmsg := { s.rxEmsg with len := 0 } }
  else if s.tch.state ≠ .waitForMessageRequestFromPe ∨ s.tch.flags.msgXmit then
    setTch (fun f => { f with msgReceived := true }) s
  else
    setRch (fun f => { f with msgReceived := true }) s

/-- What becomes of a message that was taken from the TCPM. -/
def prlRxHandle (e : Env) (h : PdHeader) (s : St) : St :=
  if h.sop ≠ .sop ∧ h.prole = PdCablePlug.fromDfpUfp.code then s
  else if !s.rch.flags.ignoreDataRole ∧ h.sop = .sop ∧ h.drole = e.dataRole.code then
    emit .startErrorRecovery s
  else if h.cnt = 0 ∧ h.type = PD_CTRL_SOFT_RESET then
    prlRxSoftReset e h.sop s
  else if s.prlRx.msgId h.sop = (h.id : Int) then s
  else prlRxRoute h (storeMsgId h (prlRxDiscard e h s))

def prlRxWaitForPhyMessage (e : Env) (s : St) : St :=
  if s.rch.flags.msgReceived then s
  else
    match s.cachedMessages with
    | [] => s
    | m :: rest => prlRxHandle e m.header (takeMessage m rest s)

/-! ## `prl_run` -/

def prlInit (e : Env) (s : St) : St :=
  let s := emit (.selectSrcCollisionRp true)
    { s with
      prlTx := { s.prlTx with flags := {}, lastXmitType := .sopStar .sop, xmitStatus := .unset }
      tch := { s.tch with flags := {} }
      rch := { s.rch with flags := {} }
      pdmsg := { s.pdmsg with flags := {} }
      prlHr := { s.prlHr with flags := {} } }
  let s := { prlResetAllMsgIds s with timers := fun _ => false }
  -- The contexts are cleared first, so no exit function runs.
  let s := prlTxPhyLayerResetEntry e { s with prlTx := { s.prlTx with state := .phyLayerReset } }
  let s := rchWaitForMessageFromProtocolLayerEntry
    { s with rch := { s.rch with state := .waitForMessageFromProtocolLayer } }
  let s := tchWaitForMessageRequestFromPeEntry
    { s with tch := { s.tch with state := .waitForMessageRequestFromPe } }
  prlHrWaitForRequestEntry { s with prlHr := { s.prlHr with state := .waitForRequest } }

/-- The machines in the order in which `prl_run` runs them. -/
inductive Phase where
  | init
  | hr
  | rx
  | rch
  | tch
  | tx
  | tchAgain
  deriving DecidableEq

abbrev RunEnv : Type := Phase → Env

/-- `prl_run` up to where the chunked machines run. -/
def beforeRch (e : RunEnv) (s : St) : St := prlRxWaitForPhyMessage (e .rx) s

def afterRch (e : RunEnv) (s : St) : St :=
  tchRun (e .tchAgain) (prlTxRun (e .tx) (tchRun (e .tch) s))

/-- The case `SM_RUN`. -/
def prlRunning (e : RunEnv) (en : Bool) (s : St) : St :=
  if !en then { emit (.setRxEnable false) s with localState := .paused }
  else
    let s := prlHrRun (e .hr) s
    if s.prlHr.state = .waitForRequest then
      afterRch e (rchRun (e .rch) (beforeRch e s))
    else s

def prlRun (e : RunEnv) (en : Bool) (s : St) : St :=
  match s.localState with
  | .paused => if !en then s else prlRunning e en { prlInit (e .init) s with localState := .run }
  | .init => prlRunning e en { prlInit (e .init) s with localState := .run }
  | .run => prlRunning e en s

/-! ## Runs of the system -/

def cacheDepth : Nat := 8

inductive Input where
  | run (e : RunEnv) (en : Bool)
  | call (e : Env) (c : PrlCall)
  | enqueueMessage (m : RxMessage)
  | clearPendingMessages

def step (s : St) : Input → St
  | .run e en => prlRun e en s
  | .call e c => prlCall e s c
  | .enqueueMessage m =>
    if s.cachedMessages.length = cacheDepth then s
    else { s with cachedMessages := s.cachedMessages ++ [m] }
  | .clearPendingMessages => { s with cachedMessages := [] }

inductive Reachable : St → Prop
  | boot : Reachable boot
  | step {s : St} (i : Input) : Reachable s → Reachable (step s i)

end ChromeEc.UsbPrl
