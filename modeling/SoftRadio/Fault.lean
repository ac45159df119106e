import SoftRadio.Direction

/-!
What can go wrong.  An `Error` is a cause, with its wording in one place;
`Error.kind` sorts the causes into the classes that the numeric status
codes stand for.  A `Fault` is either such an error or a crash, the abrupt
end of a step that `Fault.guarded` turns back into an error.
-/

namespace SoftRadio

/-- The classes of error. -/
inductive ErrorKind where
  | invalidDevice
  | invalidStreamer
  | index
  | key
  | notImplemented
  | usb
  | io
  | os
  | assertion
  | lookup
  | type
  | value
  | runtime
  | environment
  | system
  | panic
  | other
  deriving DecidableEq, Repr, Inhabited

/-- The status codes of the flat interface. -/
inductive Status where
  | none
  | invalidDevice
  | index
  | key
  | notImplemented
  | usb
  | io
  | os
  | assertion
  | lookup
  | type
  | value
  | runtime
  | environment
  | system
  | except
  | unknown
  deriving DecidableEq, Repr, Inhabited

namespace Status

/-- The number a caller sees.  These never change. -/
def code : Status → Nat
  | none => 0
  | invalidDevice => 1
  | index => 10
  | key => 11
  | notImplemented => 20
  | usb => 21
  | io => 30
  | os => 31
  | assertion => 40
  | lookup => 41
  | type => 42
  | value => 43
  | runtime => 44
  | environment => 45
  | system => 46
  | except => 47
  | unknown => 100

def name : Status → String
  | none => "None"
  | invalidDevice => "InvalidDevice"
  | index => "Index"
  | key => "Key"
  | notImplemented => "NotImplemented"
  | usb => "Usb"
  | io => "Io"
  | os => "Os"
  | assertion => "Assertion"
  | lookup => "Lookup"
  | type => "Type"
  | value => "Value"
  | runtime => "Runtime"
  | environment => "Environment"
  | system => "System"
  | except => "Except"
  | unknown => "Unknown"

def isOk (s : Status) : Bool := s == none

end Status

namespace ErrorKind

/-- The status of a failed call.  The two handle errors share one status. -/
def status : ErrorKind → Status
  | invalidDevice => .invalidDevice
  | invalidStreamer => .invalidDevice
  | index => .index
  | key => .key
  | notImplemented => .notImplemented
  | usb => .usb
  | io => .io
  | os => .os
  | assertion => .assertion
  | lookup => .lookup
  | type => .type
  | value => .value
  | runtime => .runtime
  | environment => .environment
  | system => .system
  | panic => .except
  | other => .unknown

/-- What a message of this class opens with. -/
def heading : ErrorKind → String
  | invalidDevice => "Invalid device: "
  | invalidStreamer => "Invalid streamer: "
  | index => "IndexError: "
  | key => "KeyError: "
  | notImplemented => "NotImplementedError: "
  | usb => "USBError: "
  | io => "IOError: "
  | os => "OSError: "
  | assertion => "AssertionError: "
  | lookup => "LookupError: "
  | type => "TypeError: "
  | value => "ValueError: "
  | runtime => "RuntimeError: "
  | environment => "EnvironmentError: "
  | system => "SystemError: "
  | panic => "Driver panicked: "
  | other => ""

/-- The name of the class by itself. -/
def name : ErrorKind → String
  | invalidDevice => "InvalidDevice"
  | invalidStreamer => "InvalidStreamer"
  | index => "Index"
  | key => "Key"
  | notImplemented => "NotImplemented"
  | usb => "Usb"
  | io => "Io"
  | os => "Os"
  | assertion => "Assertion"
  | lookup => "Lookup"
  | type => "Type"
  | value => "Value"
  | runtime => "Runtime"
  | environment => "Environment"
  | system => "System"
  | panic => "Panic"
  | other => "Other"

def all : List ErrorKind :=
  [invalidDevice, invalidStreamer, index, key, notImplemented, usb, io, os, assertion, lookup,
    type, value, runtime, environment, system, panic, other]

def ofName? (s : String) : Option ErrorKind := all.find? (·.name == s)

end ErrorKind

/-- Every cause of a refused operation.  `reported` is an error that a
driver made up itself, and `crashed` a driver that ended abruptly. -/
inductive Error where
  | noDevice (index : Nat)
  | noStreamer (dir : Direction) (handle : Nat)
  | freedDuringAttach (dir : Direction) (handle : Nat)
  | notAttached (dir : Direction)
  | vacantSlot (dir : Direction) (offset device : Nat)
  | noSubdevPair (index size : Nat)
  | noBoard (index count : Nat)
  | noChannel (dir : Direction) (chan count : Nat)
  | noGainElement (dir : Direction) (name : String)
  | nothingFound (listing : String)
  | noDriver (type : String)
  | unsupported (what : String)
  | noPath (path : String)
  | nodeExists (path : String)
  | wrongPropertyType (path type : String)
  | noGpioBank (bank : String)
  | noGpioAttr (attr : String)
  | readOnlyGpioAttr (attr : String)
  | noBoardSensor (name : String)
  | noSensor (dir : Direction) (name : String)
  | noRanges
  | gainNotNormalized
  | badArgument (key raw : String)
  | badSubdevToken (token : String)
  | badSampleFormat (name : String)
  | notWireFormat (name : String)
  | badStreamMode (raw : Int)
  | badTunePolicy (raw : Int)
  | bufferCount (expected given : Nat)
  | bufferTooShort (index size needed : Nat)
  | emptyGeometry
  | tooManyChannels
  | badClockRate (rate : String)
  | emptyFrames
  | emptyPackets
  | badSource (what source choices : String)
  | emptySubdevSpec
  | noSubdevice (subdevice board : String)
  | subdevListedTwice (board : String)
  | noDaughterboard (dir : Direction) (slot : String)
  | badSampleRate (rate : String)
  | badTargetFrequency (freq : String)
  | badGain (gain : String)
  | badBandwidth (bandwidth : String)
  | badAntenna (dir : Direction) (antenna choices : String)
  | unreadableSettings
  | malformedSettings
  | missing (what : String)
  | missingTextBuffer
  | missingRangeBuffer
  | missingBuffers
  | missingBuffer (index : Nat)
  | missingChannels
  | notUtf8 (what : String)
  | textFieldNotUtf8
  | samplesOverflow (count : Nat)
  | crashed (text : String)
  | reported (kind : ErrorKind) (text : String)
  deriving DecidableEq, Repr, Inhabited

namespace Error

def kind : Error → ErrorKind
  | noDevice _ => .invalidDevice
  | noStreamer .. | freedDuringAttach .. | notAttached _ | vacantSlot .. => .invalidStreamer
  | noSubdevPair .. | noBoard .. | noChannel .. => .index
  | noGainElement .. | nothingFound _ | noDriver _ => .key
  | unsupported _ => .notImplemented
  | noPath _ | noGpioBank _ | noBoardSensor _ | noSensor .. => .lookup
  | wrongPropertyType .. => .type
  | nodeExists _ | noRanges | gainNotNormalized => .runtime
  | unreadableSettings | malformedSettings => .environment
  | crashed _ => .panic
  | reported k _ => k
  | _ => .value

/-- The message without the heading of its class. -/
def detail : Error → String
  | noDevice index => s!"index {index} is not registered"
  | noStreamer dir handle => s!"{dir.name} streamer handle {handle} is not allocated"
  | freedDuringAttach dir handle =>
      s!"{dir.name} streamer handle {handle} was freed during attach"
  | notAttached dir => s!"{dir.name} streamer is not attached"
  | vacantSlot dir offset device =>
      s!"{dir.name} streamer slot {offset} on device {device} is vacant"
  | noSubdevPair index size => s!"subdev spec index {index} out of range (size {size})"
  | noBoard index count => s!"Invalid mboard index {index} (only {count} available)"
  | noChannel dir chan count =>
      s!"Invalid {dir.name} channel {chan} (only {count} available)"
  | noGainElement dir name => s!"no {dir.name} gain element named '{name}'"
  | nothingFound listing => s!"No devices found for ----->\n{listing}"
  | noDriver type => s!"No driver registered for type '{type}'"
  | unsupported what => what
  | noPath path => s!"Path not found in tree: {path}"
  | nodeExists path => s!"Cannot create node {path}, already exists"
  | wrongPropertyType path type => s!"Property {path} is not of type {type}"
  | noGpioBank bank => s!"Unknown GPIO bank '{bank}'"
  | noGpioAttr attr => s!"Unknown GPIO attribute '{attr}'"
  | readOnlyGpioAttr attr => s!"GPIO attribute '{attr}' is read-only"
  | noBoardSensor name => s!"mboard sensor '{name}' not found"
  | noSensor dir name => s!"{dir.name} sensor '{name}' not found"
  | noRanges => "meta-range cannot be empty"
  | gainNotNormalized => "Normalized gain out of range, must be in [0, 1]."
  | badArgument key raw => s!"cannot parse device argument {key}={raw}"
  | badSubdevToken token => s!"invalid subdev spec token '{token}'"
  | badSampleFormat name => s!"unsupported sample format '{name}'"
  | notWireFormat name => s!"'{name}' is not a valid over-the-wire format"
  | badStreamMode raw => s!"invalid stream mode {raw}"
  | badTunePolicy raw => s!"invalid tune policy {raw}"
  | bufferCount expected given =>
      s!"expected {expected} buffers (one per channel), got {given}"
  | bufferTooShort index size needed =>
      s!"buffer {index} holds {size} bytes, {needed} required"
  | emptyGeometry =>
      "simulated device needs at least one mboard and one channel per direction"
  | tooManyChannels => "simulated device supports at most 26 channels per mboard"
  | badClockRate rate => s!"invalid master clock rate {rate}"
  | emptyFrames => "frame_size must be non-zero"
  | emptyPackets => "spp must be non-zero"
  | badSource what source choices =>
      s!"Invalid {what} source '{source}', choose from {choices}"
  | emptySubdevSpec => "subdev spec cannot be empty"
  | noSubdevice subdevice board => s!"No subdevice '{subdevice}' on daughterboard {board}"
  | subdevListedTwice board => s!"Daughterboard {board} listed twice in subdev spec"
  | noDaughterboard dir slot => s!"No {dir.name} daughterboard in slot '{slot}'"
  | badSampleRate rate => s!"invalid sample rate {rate}"
  | badTargetFrequency freq => s!"invalid target frequency {freq}"
  | badGain gain => s!"invalid gain {gain}"
  | badBandwidth bandwidth => s!"invalid bandwidth {bandwidth}"
  | badAntenna dir antenna choices =>
      s!"Invalid {dir.name} antenna '{antenna}', choose from {choices}"
  | unreadableSettings => "Failed to read <config>"
  | malformedSettings => "Failed to parse <config>"
  | missing what => s!"{what} must not be null"
  | missingTextBuffer => "string buffer must not be null"
  | missingRangeBuffer => "range buffer must not be null"
  | missingBuffers => "buffer array must not be null"
  | missingBuffer index => s!"buffer {index} is null"
  | missingChannels => "channel_list is null but n_channels is non-zero"
  | notUtf8 what => s!"{what} is not valid UTF-8"
  | textFieldNotUtf8 => "text field is not UTF-8"
  | samplesOverflow count => s!"{count} samples overflow the buffer size"
  | crashed text => text
  | reported _ text => text

/-- The full text that is stored, printed and copied out. -/
def message (e : Error) : String := e.kind.heading ++ e.detail

def status (e : Error) : Status := e.kind.status

end Error

/-- How a step fails to finish: with an error it reports, or by a crash. -/
inductive Fault where
  | error (e : Error)
  | crash (text : String)
  deriving DecidableEq, Repr, Inhabited

namespace Fault

/-- A crash that was caught counts as an error of the driver. -/
def guarded : Fault → Error
  | error e => e
  | crash text => .crashed text

end Fault

/-- The status of a finished call. -/
def Status.ofResult {β : Type} : Except Error β → Status
  | .ok _ => .none
  | .error e => e.status

/-- The result of a step whose crashes are caught. -/
def guardedResult {β : Type} : Except Fault β → Except Error β
  | .ok v => .ok v
  | .error f => .error f.guarded

/-- Report an error from a step that may also crash. -/
def refuse {β : Type} (e : Error) : Except Fault β := .error (.error e)

/-- End a step abruptly. -/
def crash {β : Type} (text : String) : Except Fault β := .error (.crash text)

end SoftRadio
