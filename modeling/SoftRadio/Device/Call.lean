import SoftRadio.Direction
import SoftRadio.PropertyTree
import SoftRadio.Range
import SoftRadio.Sensor
import SoftRadio.Stream.Args
import SoftRadio.Stream.Command
import SoftRadio.Subdev
import SoftRadio.Tuning

/-!
The calls that a radio answers.  A call names what is asked for and carries
its arguments; an answer carries what the radio replies.
-/

namespace SoftRadio

/-- The identification of the hardware behind a channel. -/
structure ChannelInfo where
  boardId : String
  boardSerial : String
  frontendId : String
  subdevName : String
  subdevSpec : String
  frontendSerial : String
  antenna : String
  deriving DecidableEq, Repr, Inhabited

/-- A call on a whole radio, one of its motherboards (`board`) or one of its
channels (`chan`). -/
inductive Call (α : Type) where
  | summary
  | info (dir : Direction) (chan : Nat)
  | boardCount
  | boardName (board : Nat)
  | clockRate (board : Nat)
  | setClockRate (rate : α) (board : Nat)
  | timeNow (board : Nat)
  | timeLastPulse (board : Nat)
  | setTimeNow (time : TimeSpec α) (board : Nat)
  | setTimeNextPulse (time : TimeSpec α) (board : Nat)
  | setTimeUnknownPulse (time : TimeSpec α)
  | timeSynchronized
  | setCommandTime (time : TimeSpec α) (board : Nat)
  | clearCommandTime (board : Nat)
  | issue (command : StreamCommand α) (chan : Nat)
  | timeSource (board : Nat)
  | setTimeSource (source : String) (board : Nat)
  | timeSources (board : Nat)
  | clockSource (board : Nat)
  | setClockSource (source : String) (board : Nat)
  | clockSources (board : Nat)
  | setClockSourceOut (enable : Bool) (board : Nat)
  | boardSensor (name : String) (board : Nat)
  | boardSensorNames (board : Nat)
  | setRegister (addr : Nat) (data : UInt32) (board : Nat)
  | subdevSpec (dir : Direction) (board : Nat)
  | setSubdevSpec (dir : Direction) (spec : SubdevSpec) (board : Nat)
  | channelCount (dir : Direction)
  | subdevName (dir : Direction) (chan : Nat)
  | rate (dir : Direction) (chan : Nat)
  | setRate (dir : Direction) (rate : α) (chan : Nat)
  | rates (dir : Direction) (chan : Nat)
  | tune (dir : Direction) (request : TuneRequest α) (chan : Nat)
  | freq (dir : Direction) (chan : Nat)
  | freqRange (dir : Direction) (chan : Nat)
  | rfRange (dir : Direction) (chan : Nat)
  | gain (dir : Direction) (name : String) (chan : Nat)
  | setGain (dir : Direction) (gain : α) (name : String) (chan : Nat)
  | gainRange (dir : Direction) (name : String) (chan : Nat)
  | gainNames (dir : Direction) (chan : Nat)
  | normalizedGain (dir : Direction) (chan : Nat)
  | setNormalizedGain (dir : Direction) (share : α) (chan : Nat)
  | antenna (dir : Direction) (chan : Nat)
  | setAntenna (dir : Direction) (antenna : String) (chan : Nat)
  | antennas (dir : Direction) (chan : Nat)
  | bandwidth (dir : Direction) (chan : Nat)
  | setBandwidth (dir : Direction) (bandwidth : α) (chan : Nat)
  | bandwidthRange (dir : Direction) (chan : Nat)
  | sensor (dir : Direction) (name : String) (chan : Nat)
  | sensorNames (dir : Direction) (chan : Nat)
  | setDcOffset (dir : Direction) (enable : Bool) (chan : Nat)
  | setIqBalance (dir : Direction) (enable : Bool) (chan : Nat)
  | setAgc (enable : Bool) (chan : Nat)
  | gpioBanks (board : Nat)
  | setGpio (bank attr : String) (value mask : UInt32) (board : Nat)
  | gpio (bank attr : String) (board : Nat)
  | createProperty (path : String) (v : Property)
  | setProperty (path : String) (v : Property)
  | property (path : String) (type : PropertyType)
  | hasProperty (path : String)
  | listProperties (path : String)

inductive Answer (α : Type) where
  | done
  | text (v : String)
  | texts (v : List String)
  | flag (v : Bool)
  | count (v : Nat)
  | word (v : UInt32)
  | real (v : α)
  | ranges (v : Ranges α)
  | time (v : TimeSpec α)
  | sensor (v : Sensor α)
  | info (v : ChannelInfo)
  | tuned (v : TuneResult α)
  | property (v : Property)

/-- What a radio says that it does not support, in answer to a call. -/
def Call.name {α : Type} : Call α → String
  | summary => "pp_string"
  | info .. => "usrp_info"
  | boardCount => "get_num_mboards"
  | boardName _ => "get_mboard_name"
  | clockRate _ => "get_master_clock_rate"
  | setClockRate .. => "set_master_clock_rate"
  | timeNow _ => "get_time_now"
  | timeLastPulse _ => "get_time_last_pps"
  | setTimeNow .. => "set_time_now"
  | setTimeNextPulse .. => "set_time_next_pps"
  | setTimeUnknownPulse _ => "set_time_unknown_pps"
  | timeSynchronized => "get_time_synchronized"
  | setCommandTime .. => "set_command_time"
  | clearCommandTime _ => "clear_command_time"
  | issue .. => "issue_stream_cmd"
  | timeSource _ => "get_time_source"
  | setTimeSource .. => "set_time_source"
  | timeSources _ => "get_time_sources"
  | clockSource _ => "get_clock_source"
  | setClockSource .. => "set_clock_source"
  | clockSources _ => "get_clock_sources"
  | setClockSourceOut .. => "set_clock_source_out"
  | boardSensor .. => "get_mboard_sensor"
  | boardSensorNames _ => "get_mboard_sensor_names"
  | setRegister .. => "set_user_register"
  | subdevSpec .. => "get_subdev_spec"
  | setSubdevSpec .. => "set_subdev_spec"
  | channelCount _ => "get_num_channels"
  | subdevName .. => "get_subdev_name"
  | rate .. => "get_rate"
  | setRate .. => "set_rate"
  | rates .. => "get_rates"
  | tune .. => "set_freq"
  | freq .. => "get_freq"
  | freqRange .. => "get_freq_range"
  | rfRange .. => "get_fe_freq_range"
  | gain .. => "get_gain"
  | setGain .. => "set_gain"
  | gainRange .. => "get_gain_range"
  | gainNames .. => "get_gain_names"
  | normalizedGain .. => "get_normalized_gain"
  | setNormalizedGain .. => "set_normalized_gain"
  | antenna .. => "get_antenna"
  | setAntenna .. => "set_antenna"
  | antennas .. => "get_antennas"
  | bandwidth .. => "get_bandwidth"
  | setBandwidth .. => "set_bandwidth"
  | bandwidthRange .. => "get_bandwidth_range"
  | sensor .. => "get_sensor"
  | sensorNames .. => "get_sensor_names"
  | setDcOffset .. => "set_dc_offset_enabled"
  | setIqBalance .. => "set_iq_balance_enabled"
  | setAgc .. => "AGC is not available on this device"
  | gpioBanks _ => "get_gpio_banks"
  | setGpio .. => "set_gpio_attr"
  | gpio .. => "get_gpio_attr"
  | createProperty .. | setProperty .. | property .. | hasProperty _ | listProperties _ => "tree"

end SoftRadio
