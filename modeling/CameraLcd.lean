import CameraLcd.Lib.Clocked
import CameraLcd.Lib.IdealFifo
import CameraLcd.Lib.MixedFifo
import CameraLcd.Lib.BurstMemory
import CameraLcd.Lib.RegisterProgram
import CameraLcd.Lib.I2cBus
import CameraLcd.Lib.I2cTarget
import CameraLcd.Lib.Waveform
import CameraLcd.Camera.Slave
import CameraLcd.Camera.Master
import CameraLcd.Camera.WriteBurst
import CameraLcd.Camera.Gather
import CameraLcd.Camera.FifoLevel
import CameraLcd.Camera.BufferIndex
import CameraLcd.Camera.Tiling
import CameraLcd.Camera.FreshFrame
import CameraLcd.Camera.Acquisition
import CameraLcd.Camera.LineBuffer
import CameraLcd.Camera.Raster
import CameraLcd.Camera.FrameHistory
import CameraLcd.Lcd.Slave
import CameraLcd.Lcd.Control
import CameraLcd.Lcd.WriteCycle
import CameraLcd.Lcd.Handshake
import CameraLcd.Lcd.Master
import CameraLcd.Lcd.BurstRead
import CameraLcd.Lcd.BufferEnd
import CameraLcd.Lcd.Display
import CameraLcd.Lcd.Session
import CameraLcd.Lcd.Entity
import CameraLcd.Lcd.Rendezvous
import CameraLcd.Lcd.SoftwareReset
import CameraLcd.Lcd.SharedMemory
import CameraLcd.Lcd.Progress
import CameraLcd.I2c.Core
import CameraLcd.I2c.Interface
import CameraLcd.I2c.Bus
import CameraLcd.I2c.Transfer
import CameraLcd.I2c.Duration
import CameraLcd.I2c.Driver
import CameraLcd.I2c.Transactions
import CameraLcd.I2c.Configuration
import CameraLcd.Sensor.Generator
import CameraLcd.Sensor.Player
import CameraLcd.Sensor.Driver
import CameraLcd.System.TripleBuffer
import CameraLcd.System.BufferLayout
import CameraLcd.System.Transfer
import CameraLcd.System.Restart
import CameraLcd.System.FrameStore
import CameraLcd.System.FrameProgress
import CameraLcd.System.Video
import CameraLcd.System.Live
import CameraLcd.System.Pipeline
import CameraLcd.Software.Capture
import CameraLcd.Software.CameraSetup
import CameraLcd.Software.LcdDriver
import CameraLcd.Software.LcdSetup
import CameraLcd.Software.MemoryTest
import CameraLcd.Software.TestPicture
