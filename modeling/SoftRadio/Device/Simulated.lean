import SoftRadio.Capacity
import SoftRadio.Device.Board
import SoftRadio.Device.Call
import SoftRadio.Frontend
import SoftRadio.Geometry
import SoftRadio.Stream.Receiver
import SoftRadio.Stream.Sender

/-!
The simulated radio.  Channels are counted through the motherboards: each
board's subdevice specification names the daughterboard slots behind its
channels in order, and every slot of every board has a front end of its
own.  `Device.locate` is that mapping.
-/

namespace SoftRadio

structure Device (α : Type) where
  addr : Address
  geometry : Geometry α
  tree : PropertyTree
  boards : List (Board α)
  frontends : Sides fun _ => List (Frontend α)
  office : PostOffice α

/-- Where a channel is: its motherboard, its front end among all of them,
and its daughterboard slot. -/
structure Location where
  board : Nat
  frontend : Nat
  slot : Nat
  deriving DecidableEq, Repr

namespace Device

variable {α : Type} [Scalar α]

/-- The identities of the two kinds of daughterboard. -/
def dboardId : Direction → Nat
  | .rx => 0x0101
  | .tx => 0x0102

/-- The bytes that a motherboard takes in the list of them. -/
def boardSize : Nat := 224

/-- The serial of a motherboard: the radio's own for the first of them. -/
def boardSerial (serial : String) (board : Nat) : String :=
  if board = 0 then serial else s!"{serial}-{board}"

/-- Store the memories of the daughterboards of one slot. -/
def plantSlot (g : Geometry α) (board : Nat) (serial : String) (t : PropertyTree) (slot : Nat) :
    Except Fault PropertyTree := do
  let name ← Slot.name slot
  let plant := fun (t : PropertyTree) (dir : Direction) =>
    if slot < g.channels dir then
      let record : DboardEeprom := ⟨dboardId dir, s!"{serial}{board}{name}", 1⟩
      match t.create (dboardEepromPath board name dir.name) (.dboard record) with
      | .ok t => t
      | .error _ => t
    else t
  return plant (plant t .rx) .tx

/-- Store what is known of one motherboard. -/
def plantBoard (g : Geometry α) (addr : Address) (t : PropertyTree) (board : Nat) :
    Except Fault PropertyTree := do
  let serial := boardSerial (addr.getD "serial" "SIM0000") board
  let memory := ((Address.empty.set "serial" serial).set "name" (addr.getD "name" "")).set
    "product" g.product
  let keep := fun (t : PropertyTree) (path : String) (v : Property) =>
    match t.create path v with
    | .ok t => t
    | .error _ => t
  let t := keep t s!"/mboards/{board}/name" (.text g.product)
  let t := keep t (mboardEepromPath board) (.address memory)
  (List.range (min (max g.rxChannels g.txChannels) Slot.limit)).foldlM (plantSlot g board serial) t

/-- Open a radio of a given size. -/
def make (addr : Address) (g : Geometry α) : Except Fault (Device α) := do
  Capacity.reserve g.boards boardSize
  let tree ← (List.range g.boards).foldlM (plantBoard g addr) PropertyTree.empty
  let boards ← (List.range g.boards).mapM fun _ => do
    let rxSpec ← Board.initialSpec g.rxChannels
    let txSpec ← Board.initialSpec g.txChannels
    return Board.initial g.clockRate rxSpec txSpec
  return {
    addr := addr
    geometry := g
    tree := tree
    boards := boards
    frontends := {
      rx := List.replicate (g.boards * g.rxChannels) (Frontend.initial .rx g.clockRate)
      tx := List.replicate (g.boards * g.txChannels) (Frontend.initial .tx g.clockRate) }
    office := PostOffice.make (g.boards * g.rxChannels) }

def board (d : Device α) (index : Nat) : Except Fault (Board α) :=
  match d.boards[index]? with
  | some b => .ok b
  | none => refuse (.noBoard index d.boards.length)

def setBoard (d : Device α) (index : Nat) (b : Board α) : Device α :=
  { d with boards := d.boards.set index b }

/-- The number of the slot of that name. -/
def slotIndex (d : Device α) (dir : Direction) (name : String) : Except Fault Nat :=
  match Slot.ofName? name with
  | some slot =>
    if slot < d.geometry.channels dir then .ok slot else refuse (.noDaughterboard dir name)
  | none => refuse (.noDaughterboard dir name)

/-- Find a channel on the boards that are left, `index` being the number of
the first of them and `passed` the channels before it. -/
def locateFrom (d : Device α) (dir : Direction) (chan : Nat) :
    (index passed : Nat) → List (Board α) → Except Fault Location
  | _, passed, [] => refuse (.noChannel dir chan passed)
  | index, passed, b :: rest =>
    match (b.spec dir).pairs[chan - passed]? with
    | some pair => do
      let slot ← d.slotIndex dir pair.slot
      return ⟨index, index * d.geometry.channels dir + slot, slot⟩
    | none => locateFrom d dir chan (index + 1) (passed + (b.spec dir).size) rest

/-- Where a channel is. -/
def locate (d : Device α) (dir : Direction) (chan : Nat) : Except Fault Location :=
  d.locateFrom dir chan 0 0 d.boards

def channelCount (d : Device α) (dir : Direction) : Nat :=
  d.boards.foldr (fun b rest => (b.spec dir).size + rest) 0

def frontend (d : Device α) (dir : Direction) (index : Nat) : Except Fault (Frontend α) :=
  match (d.frontends.get dir)[index]? with
  | some fe => .ok fe
  | none => crash "index out of bounds"

/-- The front end of a channel and the master clock rate of its board. -/
def channel (d : Device α) (dir : Direction) (chan : Nat) :
    Except Fault (Location × Frontend α × α) := do
  let place ← d.locate dir chan
  let b ← d.board place.board
  let fe ← d.frontend dir place.frontend
  return (place, fe, b.clockRate)

def setFrontend (d : Device α) (dir : Direction) (index : Nat) (fe : Frontend α) : Device α :=
  { d with frontends := d.frontends.set dir ((d.frontends.get dir).set index fe) }

/-- Ask the front end of a channel. -/
def ask {β : Type} (d : Device α) (dir : Direction) (chan : Nat)
    (f : Frontend α → α → Except Fault β) : Except Fault β := do
  let (_, fe, clockRate) ← d.channel dir chan
  f fe clockRate

/-- Change the front end of a channel. -/
def change (d : Device α) (dir : Direction) (chan : Nat)
    (f : Frontend α → α → Except Fault (Frontend α)) : Except Fault (Device α) := do
  let (place, fe, clockRate) ← d.channel dir chan
  let fe ← f fe clockRate
  return d.setFrontend dir place.frontend fe

def boardName (d : Device α) (index : Nat) : Except Fault String := do
  let _ ← d.board index
  d.tree.getText s!"/mboards/{index}/name"

def subdevName (d : Device α) (dir : Direction) (chan : Nat) : Except Fault String := do
  let place ← d.locate dir chan
  let slot ← Slot.name place.slot
  return s!"SIM-{dir.label} {slot}"

/-- A number with four hexadecimal digits at least. -/
def hexId (n : Nat) : String :=
  let digits := Nat.toDigits 16 n
  String.ofList ('0' :: 'x' :: (List.replicate (4 - digits.length) '0' ++ digits))

def info (d : Device α) (dir : Direction) (chan : Nat) : Except Fault ChannelInfo := do
  let (place, fe, _) ← d.channel dir chan
  let boardMemory ← d.tree.getAddress (mboardEepromPath place.board)
  let slot ← Slot.name place.slot
  let record ← d.tree.getDboard (dboardEepromPath place.board slot dir.name)
  let b ← d.board place.board
  let boardId ← d.boardName place.board
  let subdevName ← d.subdevName dir chan
  return {
    boardId := boardId
    boardSerial := boardMemory.getD "serial" ""
    frontendId := s!"SIMDB ({hexId record.id})"
    subdevName := subdevName
    subdevSpec := (b.spec dir).render
    frontendSerial := record.serial
    antenna := fe.antenna }

/-- The lines of the summary about one channel. -/
def channelLines (d : Device α) (dir : Direction) (chan : Nat) : Except Fault String := do
  let place ← d.locate dir chan
  let slot ← Slot.name place.slot
  let name ← d.subdevName dir chan
  return s!"  {dir.label} Channel: {chan}\n" ++ s!"    {dir.label} DSP: {chan}\n" ++
    s!"    {dir.label} Dboard: {slot}\n" ++ s!"    {dir.label} Subdev: {name}\n"

/-- A summary of the whole radio for a person to read. -/
def summary (d : Device α) : Except Fault String := do
  let boards ← (List.range d.boards.length).mapM fun i => do
    let name ← d.boardName i
    return s!"  Mboard {i}: {name}\n"
  let rx ← (List.range (d.channelCount .rx)).mapM (d.channelLines .rx)
  let tx ← (List.range (d.channelCount .tx)).mapM (d.channelLines .tx)
  let kind := if 1 < d.boards.length then "Multi" else "Single"
  return s!"{kind} USRP:\n  Device: Simulated Radio ({d.addr.render})\n" ++
    String.join (boards ++ rx ++ tx)

def checkSource (what source : String) : Except Fault Unit :=
  if Board.sources.contains source then .ok ()
  else refuse (.badSource what source (quotedNames Board.sources))

/-- Check the pairs of a specification against the slots there are and the
slots named before. -/
def checkPairs (d : Device α) (dir : Direction) : List Nat → List SubdevPair → Except Fault Unit
  | _, [] => .ok ()
  | used, p :: rest => do
    let slot ← d.slotIndex dir p.slot
    if !(p.subdevice = "" || p.subdevice = "0") then refuse (.noSubdevice p.subdevice p.slot)
    else if used.contains slot then refuse (.subdevListedTwice p.slot)
    else checkPairs d dir (slot :: used) rest

def setSubdevSpec (d : Device α) (dir : Direction) (spec : SubdevSpec) (index : Nat) :
    Except Fault (Device α) := do
  let b ← d.board index
  if spec.isEmpty then refuse .emptySubdevSpec
  else
    d.checkPairs dir [] spec.pairs
    return d.setBoard index (b.setSpec dir spec)

def setClockRate (d : Device α) (rate : α) (index : Nat) : Except Fault (Device α) := do
  if !(Scalar.isFinite rate && Scalar.lt (Scalar.ofInt 0) rate) then
    refuse (.badClockRate (Scalar.text rate))
  else
    let b ← d.board index
    return d.setBoard index { b with clockRate := rate }

/-- Change one motherboard. -/
def changeBoard (d : Device α) (index : Nat) (f : Board α → Board α) :
    Except Fault (Device α) := do
  let b ← d.board index
  return d.setBoard index (f b)

/-- Set the time at the next pulse on every motherboard, one after another;
`looks` gives the elapsed time that each of them sees. -/
def setTimeUnknownPulse (d : Device α) (time : TimeSpec α) (looks : Nat → α) : Device α :=
  { d with boards := d.boards.zipIdx.map fun (b, i) =>
      { b with clock := Clock.setNextPulse (looks i) time } }

/-- Whether all clocks agree to a millionth of a second. -/
def timeSynchronized (d : Device α) : Bool :=
  match d.boards with
  | [] => true
  | first :: _ => d.boards.all fun b =>
    Scalar.lt (Scalar.abs (b.clock.offset - first.clock.offset)) (Scalar.ratio 1 1000000)

/-- Issue a command on one channel. -/
def issue (d : Device α) (command : StreamCommand α) (chan : Nat) (elapsed : α) :
    Except Fault (Device α) := do
  let place ← d.locate .rx chan
  let b ← d.board place.board
  let now ← b.clock.now elapsed
  return { d with office := d.office.issue command now place.frontend }

def setGpio (d : Device α) (bank attr : String) (value mask : UInt32) (index : Nat) :
    Except Fault (Device α) := do
  let b ← d.board index
  let a ← Gpio.attr bank attr
  let gpio ← b.gpio.write a value mask
  return d.setBoard index { b with gpio := gpio }

def gpio (d : Device α) (bank attr : String) (index : Nat) : Except Fault UInt32 := do
  let b ← d.board index
  let a ← Gpio.attr bank attr
  return b.gpio.read a

/-- The share of the overall gain range that is in use. -/
def normalizedGain (d : Device α) (dir : Direction) (chan : Nat) : Except Fault α :=
  NormalizedGain.read (d.ask dir chan fun fe _ => fe.gainRange "")
    (d.ask dir chan fun fe _ => fe.gain "")

def setNormalizedGain (d : Device α) (dir : Direction) (share : α) (chan : Nat) :
    Except Fault (Device α) := do
  let gain ← NormalizedGain.target (d.ask dir chan fun fe _ => fe.gainRange "") share
  d.change dir chan fun fe _ => fe.setGain gain ""

/-- The channels' places, the rate of the first and the packet size of a stream. -/
def streamSetup (d : Device α) (dir : Direction) (args : StreamArgs) :
    Except Fault (List Location × Nat × α × Nat) := do
  let places ← args.channelList.mapM (d.locate dir)
  let first := places.head?.getD ⟨0, 0, 0⟩
  let fe ← d.frontend dir first.frontend
  let frameSize ← match ← args.args.nat? "spp" with
    | some 0 => refuse .emptyPackets
    | some spp => .ok (min spp d.geometry.frameSize)
    | none => .ok d.geometry.frameSize
  return (places, first.board, fe.rate, frameSize)

/-- Open a receive stream. -/
def openReceiver (d : Device α) (args : StreamArgs) : Except Fault (Receiver α) := do
  let (format, _) ← args.formats
  let (places, board, rate, frameSize) ← d.streamSetup .rx args
  return Receiver.make d.office (places.map Location.frontend) board format rate frameSize

/-- Open a transmit stream. -/
def openSender (d : Device α) (args : StreamArgs) : Except Fault (Sender α) := do
  let (format, _) ← args.formats
  let (places, board, rate, frameSize) ← d.streamSetup .tx args
  return Sender.make (places.map Location.frontend) board format rate frameSize

/-- Issue a command on all channels of a stream. -/
def issueOn (d : Device α) (r : Receiver α) (command : StreamCommand α) (elapsed : α) :
    Except Fault (Device α) := do
  let b ← d.board r.board
  let now ← b.clock.now elapsed
  return { d with office := d.office.issueAll command now r.channels }

/-- Answer a call that changes nothing. -/
def reply (d : Device α) (answer : Except Fault (Answer α)) :
    Except Fault (Answer α × Device α) := do
  let a ← answer
  return (a, d)

/-- Confirm a change. -/
def settle (changed : Except Fault (Device α)) : Except Fault (Answer α × Device α) := do
  let d ← changed
  return (.done, d)

/-- Carry out a call.  `looks` gives the elapsed time at each look at the
clock.  A call that fails changes nothing. -/
def perform (d : Device α) (looks : Nat → α) : Call α → Except Fault (Answer α × Device α)
  | .summary => d.reply (.text <$> d.summary)
  | .info dir chan => d.reply (.info <$> d.info dir chan)
  | .boardCount => d.reply (.ok (.count d.boards.length))
  | .boardName i => d.reply (.text <$> d.boardName i)
  | .clockRate i => d.reply ((.real ·.clockRate) <$> d.board i)
  | .setClockRate rate i => settle (d.setClockRate rate i)
  | .timeNow i => d.reply do
    let b ← d.board i
    .time <$> b.clock.now (looks 0)
  | .timeLastPulse i => d.reply do
    let b ← d.board i
    .time <$> b.clock.lastPulse (looks 0)
  | .setTimeNow t i => settle (d.changeBoard i ({ · with clock := Clock.setNow (looks 0) t }))
  | .setTimeNextPulse t i =>
    settle (d.changeBoard i ({ · with clock := Clock.setNextPulse (looks 0) t }))
  | .setTimeUnknownPulse t => settle (.ok (d.setTimeUnknownPulse t looks))
  | .timeSynchronized => d.reply (.ok (.flag d.timeSynchronized))
  | .setCommandTime t i => settle (d.changeBoard i ({ · with commandTime := some t }))
  | .clearCommandTime i => settle (d.changeBoard i ({ · with commandTime := none }))
  | .issue command chan => settle (d.issue command chan (looks 0))
  | .timeSource i => d.reply ((.text ·.timeSource) <$> d.board i)
  | .setTimeSource source i => settle do
    checkSource "time" source
    d.changeBoard i ({ · with timeSource := source })
  | .timeSources i => d.reply ((fun _ => .texts Board.sources) <$> d.board i)
  | .clockSource i => d.reply ((.text ·.clockSource) <$> d.board i)
  | .setClockSource source i => settle do
    checkSource "clock" source
    d.changeBoard i ({ · with clockSource := source })
  | .clockSources i => d.reply ((fun _ => .texts Board.sources) <$> d.board i)
  | .setClockSourceOut enable i => settle (d.changeBoard i ({ · with clockSourceOut := enable }))
  | .boardSensor name i => d.reply do
    let b ← d.board i
    .sensor <$> b.sensor name
  | .boardSensorNames i => d.reply ((fun _ => .texts Board.sensorNames) <$> d.board i)
  | .setRegister addr data i => settle (d.changeBoard i fun b =>
    { b with registers := fun a => if a = addr then some data else b.registers a })
  | .subdevSpec dir i => d.reply ((fun b => .text (b.spec dir).render) <$> d.board i)
  | .setSubdevSpec dir spec i => settle (d.setSubdevSpec dir spec i)
  | .channelCount dir => d.reply (.ok (.count (d.channelCount dir)))
  | .subdevName dir chan => d.reply (.text <$> d.subdevName dir chan)
  | .rate dir chan => d.reply (d.ask dir chan fun fe _ => .ok (.real fe.rate))
  | .setRate dir rate chan => settle (d.change dir chan fun fe clock => fe.setRate rate clock)
  | .rates dir chan =>
    d.reply (d.ask dir chan fun _ clock => .ok (.ranges (Frontend.rateRange clock)))
  | .tune dir request chan => do
    let (place, fe, clock) ← d.channel dir chan
    let (result, fe) ← fe.tune request clock
    return (.tuned result, d.setFrontend dir place.frontend fe)
  | .freq dir chan => d.reply (d.ask dir chan fun fe _ => .ok (.real fe.freq))
  | .freqRange dir chan =>
    d.reply (d.ask dir chan fun _ clock => .ok (.ranges (Frontend.freqRange clock)))
  | .rfRange dir chan => d.reply (d.ask dir chan fun _ _ => .ok (.ranges Frontend.rfRange))
  | .gain dir name chan => d.reply (d.ask dir chan fun fe _ => .real <$> fe.gain name)
  | .setGain dir gain name chan => settle (d.change dir chan fun fe _ => fe.setGain gain name)
  | .gainRange dir name chan => d.reply (d.ask dir chan fun fe _ => .ranges <$> fe.gainRange name)
  | .gainNames dir chan => d.reply (d.ask dir chan fun fe _ => .ok (.texts fe.gainNames))
  | .normalizedGain dir chan => d.reply (.real <$> d.normalizedGain dir chan)
  | .setNormalizedGain dir share chan => settle (d.setNormalizedGain dir share chan)
  | .antenna dir chan => d.reply (d.ask dir chan fun fe _ => .ok (.text fe.antenna))
  | .setAntenna dir antenna chan => settle (d.change dir chan fun fe _ => fe.setAntenna antenna)
  | .antennas dir chan => d.reply ((fun _ => .texts (Frontend.antennas dir)) <$> d.locate dir chan)
  | .bandwidth dir chan => d.reply (d.ask dir chan fun fe _ => .ok (.real fe.bandwidth))
  | .setBandwidth dir bandwidth chan =>
    settle (d.change dir chan fun fe _ => fe.setBandwidth bandwidth)
  | .bandwidthRange dir chan =>
    d.reply ((fun _ => .ranges Frontend.bandwidthRange) <$> d.locate dir chan)
  | .sensor dir name chan => d.reply (d.ask dir chan fun fe _ => .sensor <$> fe.sensor name)
  | .sensorNames dir chan => d.reply (d.ask dir chan fun fe _ => .ok (.texts fe.sensorNames))
  | .setDcOffset dir enable chan =>
    settle (d.change dir chan fun fe _ => .ok { fe with dcOffsetEnabled := enable })
  | .setIqBalance dir enable chan =>
    settle (d.change dir chan fun fe _ => .ok { fe with iqBalanceEnabled := enable })
  | .setAgc enable chan =>
    settle (d.change .rx chan fun fe _ => .ok { fe with agcEnabled := enable })
  | .gpioBanks i => d.reply ((fun _ => .texts [Gpio.bank]) <$> d.board i)
  | .setGpio bank attr value mask i => settle (d.setGpio bank attr value mask i)
  | .gpio bank attr i => d.reply (.word <$> d.gpio bank attr i)
  | .createProperty path v => settle ((fun t => { d with tree := t }) <$> d.tree.create path v)
  | .setProperty path v => settle ((fun t => { d with tree := t }) <$> d.tree.set path v)
  | .property path type => d.reply (.property <$> d.tree.get path type)
  | .hasProperty path => d.reply (.ok (.flag (d.tree.contains path)))
  | .listProperties path => d.reply (.ok (.texts (d.tree.children path)))

end Device

end SoftRadio
