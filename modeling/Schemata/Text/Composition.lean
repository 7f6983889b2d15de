import Schemata.Text.Category

/-!
The composed form of texts: of all canonically equal spellings the one with composed characters.
-/

namespace Schemata.Text

def combiningClasses : List (Nat × Nat × Nat) := spansFrom 0 (numbers
  ["BDouIwbaIybdImbaIybaIibeImbbHubdImbbHubkImbebbdImbhIwbaJgbaIwbcImbcIwbbImccIwbdImbaIwbaIybbImb",
   "aIwbaIzbbJabaIzbbJabaIzbmIwKqeIwKgaImbdIwbaImbcIwbaIobaImbfIwbfImbbIwbaImbbIwbaIobaIubaIwbakba",
   "lbambanbaobapbaqbarbasbbtbaubavbawcaxcaybazcaIwbaImcasCvhIwbaBebaBfbaBgBxaBbbaBcbaBdbaBebaBfba",
   "BgbaBhbaBibbIwbbImbeIwbaImbbIwbaImraBjDygIwddIwbaImbaIwdbIwcaImbbIwbaImBkaBkBfaIwbaImbbIwbaImb",
   "bIwbcImbaIwbbImbaIwbaImbcIwbaImbaIwbaImbaIwbaImbaIwbaImbbIwGfgIwbaImbaIwkaImzdIwciIwccIwceIwBs",
   "cImCjaIwbcImbdIwBreIwbeImbnIwcaImbbIwbaImbbIwbaImbcIwbcImbaBbbaBcbaBdbcIwbaImbbIwbbImbeIwCjahr",
   "ajeaIwbaImbbIwEaahrajBxaIwCkahrajEhahrajEhahrajEyajEhahrajiaDgbaDnDyahrajEgbjrajEvajEgbDzbajod",
   "EdEfbEobajodEsCzbImBcaImcaImcaIiCeaEzbaFacaFcgdFadaFacbIwbajcbIwClaImEjahcbjDfaImBBscIwBKnbjBf",
   "ajGcajlaIwHwaIuFoaIobaIwbaImImaIwbaImCuajvhIwdaImBxeIwbfImbbIwbaImcbImbbIwbbImbeIwbaImbdIwDyah",
   "qajBnaIwbaImbgIwCdbjChahmbjCqahFxcIwcabbeImbbIwbdImbaIwcgbfaImhaIwebIwHrbIwbaImbgIwbaImbbIwba",
   "JabaIgbaImbaHubBkIwbaIybbIubaImbaIkbaIwbaIzbaImbaIwbaImBBtbIwbbbbdIwbcbbbIwfaIwebbbaIwbaImbaIw",
   "bbbbdImbaIwEOdcIwFmajDtBfIwVjaIkbaIubaIybaIobbIqEcbiBSQfaIwfjIwBhbIwDdbIwKrajBmajFwajBcrIwCgc",
   "ImBmajDsahnajJgaIwcbIwbaImdbIwgbIwcaIwCbajJnajBDZtaBaBDqgIwbgImbbIwBLmaImItaImFueIwCMtaImcaIw",
   "BpaIwbabbaImfajGkaIwbaImWcdIwOybIwDdcImCtbImbcIwbaImbaIwbdImByaIwbaImbaIwbaImHlajBqajpajCgajba",
   "hCscIwBxbjClahCzajkahEdajbahGxahbajDdbhrajzgIweeIwHyajeahyaIwDwajbahJsajbahExajEpajbahEmajKkaj",
   "bahJzbjfahGbajDgajtajDeajQgajJzahcbjDeajQkbjBCReebCigIwBUobgBDAzabHWpbIibcbeaIsbeIijhImdeIwbb",
   "ImBfdIwFtcIwFFggIwcqIwdgIwcbIwceIwDxaIwGfgIwOmaIwCkdIwTpbIybaImbaIwBMfgImEgfIwbah"])

/-- The composites with a mark, ascending, given by the distance from the one before and the
base. -/
def compositesFrom (mark last : Nat) : List Nat → List (Nat × Nat × Nat)
  | gap :: base :: rest => (last + gap, base, mark) :: compositesFrom mark (last + gap) rest
  | _ => []

def composites : List (Nat × Nat × Nat) :=
  List.flatMap (fun g => compositesFrom g.1 0 (numbersFrom 0 g.2.toList)) [
  (768, "HkCniCreCvgDbhDhhDtiDxeEbgEhhEnIsImbJsBcDabEgTzBOfnBOiCpBPlnBPoJTfKobKpChMubMv"),
  (768, "LOiDjbEpBlHmbIsjJybJzpHubJarIebJkjQabQbnQpbQqhDlbErpLTgbLThhLTobLTphLTwbLTxhLUe"),
  (768, "LUhLUfhLUmbLUnhLUubLUvhLVcbLVdhLVkbLVlhLVsbLVthLWabLWbhLWibLWjiLWrhLWybLWzhLXg"),
  (768, "LXjLXhfBKjcBKncBKpcBKrcBKxcBLdcBLhCkBJdoBJhcBJjdMApfBLiiBJldMDafBLjiBJxdGmlBJr"),
  (768, "MCwBKb"),
  (769, "HlCniCreCvgDbhDhdDleDtiDxeEbgEhhEndErjCpbDvByCybEejDabEgqDebEkfDfbElBeDmbEsDpIm"),
  (769, "SeJsBcCtbDzfHpbIvbHqbIwbIibJoMnBDwCnGmbBJdcBJhbBJjbBJlcBJrcBJxbBKbbBLiBcBKjbBKn"),
  (769, "BKgBKpbBKrbBLjBcBKxbBLdbBLhfBLqBwBOdjBOkCtBPjjBPqJSuHrbIxnKobKpxHzbJfbCxbEdnCz"),
  (769, "LLvEfnIfbJlfMubMvbDcbEiBjNwbNxjDjbEpBhHmbIsjJybJzpHubJarIebJkjQabQbnQpbQqBbLTg"),
  (769, "LTlLThhLTobLTphLTwbLTxhLUebLUfhLUmbLUnhLUubLUvhLVcbLVdhLVkbLVlhLVsbLVthLWabLWb"),
  (769, "LWmLWibLWjiLWrhLWybLWzhLXgbLXhDtMApqMDa"),
  (770, "HmCniCreCvgDbhDhhDtiDxeEbgEhhEnnCpbDvtCtbDzhCubEapCwbEcBnDfbElxDjbEpbDlbErLAnDm"),
  (770, "LOzEsBbLPobLPpzLQmbLQnrLRgbLRh"),
  (771, "HnCnoDaeDboDtoEgeEhBzCvbEbClDhbEnLAhDibEoBtHmbIsjJybJzhCrbDxhHubJarIebJkjQabQb"),
  (771, "LSoQpbQqjDlbEr"),
  (772, "JwCnbDtrCrbDxxCvbEbBhDbbEhBdDhbEnEcImbJsiHobIubVebVfbHqbIwjSwbSxCjIgbJmbIfbJldVm"),
  (772, "VpVnbDlbErBAlBOibBPolBOtbBPzJObCtbDzxLLmbLLnBjLMwbLMxNcBKjiBJdyBKriBJliBLdiBJx"),
  (774, "JyCnbDtrCrbDxjCtbDznCvbEbBhDbbEhBdDhbEnZxBOtlBOiBgBPoBlBPzDvBOgbBPmoBOabBPgfBOf"),
  (774, "BVrBPlJOvVgbVhFxLPobLPpJpBKjiBJdyBKriBJliBLdiBJx"),
  (775, "KgCpbDvlCrbDxjCtbDzpCvCxDmbEsGoCnbDthDbbEhKNzCobDuhCqbDwtCsbDydCubEaBdCzbEfdDa"),
  (775, "LMbEgrDcbEibDebEkhDfbEldNibNjbNobNpbLNebLNfbDgbEmBbDjbEpdDkbEqdDlbErmOt"),
  (776, "HoCnhCreCvhDbgDhiDthDxeEbhEhgEndErErDlVqBJlbBJxBfBKrbBLdjBLqBtBOfgBNqCwBPlgBQs"),
  (776, "BVmBOabBPghBVsbBVtbBOgbBPmbBOhbBPnfBOibBPobBOobBPudBWibBWjbBPdbBQjdBOtbBPzdBOx"),
  (776, "BWvBQddBPbbBQhJNxCubEaBnIfbJlBrNybNzjDjbEphDkbEqkEm"),
  (777, "LPqCnbDtfHmbIsjJybJzhCrbDxhHubJafCvbEbfDbbEhfIebJkjQabQbhDhbEnfQpbQqjDlbEr"),
  (778, "HpCnBgDtFhDhbEnLBdEpbEr"), (779, "MyDbbEhBfDhbEnBInBOtbBPz"),
  (780, "KiCpbDvbCqbDwlCrbDxBiCybEejDabEgqDebEkhDfbEldDgbEmyDmbEsDbCnbDtbCvbEbbDbbEhbDh"),
  (780, "SaEnfImbJsmCtbDzbCxbEdfQxbZibEcBuCubEa"),
  (783, "TsCnbDtdCrbDxdCvbEbdDbbEhdDebEkdDhbEnXlBRwbBRx"),
  (785, "TuCnbDtdCrbDxdCvbEbdDbbEhdDebEkdDhbEn"),
  (787, "LTgBKjiBJdiBKniBJhiBKpiBJjiBKriBJliBKxiBJriBLdqBLhiBKbEuBKz"),
  (788, "LThBKjiBJdiBKniBJhiBKpiBJjiBKriBJliBKxiBJriBLdiBJxiBLhiBKbEuBKzhBJt"),
  (795, "QaDbbEhoDhbEn"),
  (803, "LJoCobDuhCqbDwxCubEanCxbEddCybEelCzbEfdDabEgtDebEkhDfbEljDgbEmrDibEojDjbEpjDmbEs"),
  (803, "LPoCnbDtxCrbDxrCvbEbbDbbEhvQabQbbDhbEnlQpbQqdDlbEr"), (804, "LNuDhbEn"), (805, "LJkCnbDt"),
  (806, "UqDfbElbDgbEm"),
  (807, "HrCpBgDvChCtbDztCxbEdeCybEejDabEgqDebEkhDfbEldDgbEmHpCrbDxKOtCqbDwxCubEa"),
  (808, "KaCnbDttCrbDxvCvbEbCpDhbEnEpDbbEh"), (813, "LKcCqbDwfCrbDxBjCybEenDabEgBlDgbEmfDhbEn"),
  (814, "LLaCubEa"), (816, "LKkCrbDxrCvbEbCtDhbEn"),
  (817, "LJqCobDuhCqbDwBlCxbEdfCybEenDabEgvDebEkpDgbEmBlDmbEsbEa"),
  (824, "MSwMSmbMSotMSqBfMUybMVcbMVaCbMWxfMXcdMXfyMYdcMYfBbMZcdMZjdMZlcMZoxCjcNAnlMZtbCi"),
  (824, "NBbCkbNAqbNArdNBebNBfdNBibNBjhNBmbNBndNBubNBvdNBybNBzBjNDabNDgbNDhbNDjBxNBobNBp"),
  (824, "NFmNCjbNCkhNDqbNDrbNDsbNDtDAdQGb"),
  (834, "LTmLTgbLThhLTobLTpxLUmbLUnhLUubLUvhLVcbLVdhLVkbLVlxLWibLWjiLWrhLWybLWzhLXgbLXh"),
  (834, "MAgBKjlGmfBKpjMAphBKrbBLiiMDahBLdbBLjpBLh"),
  (837, "LYeLTgbLThbLTibLTjbLTkbLTlbLTmbLTnbLTobLTpbLTqbLTrbLTsbLTtbLTubLTvbLUmbLUnbLUo"),
  (837, "LYxLUpbLUqbLUrbLUsbLUtbLUubLUvbLUwbLUxbLUybLUzbLVabLVbbLWybLWzbLXabLXbbLXcbLXd"),
  (837, "LZqLXebLXfbLXgbLXhbLXibLXjbLXkbLXlbLXmbLXndLXobBKjbBKedMAgfBJdgLXsbBKpbBKgdMAw"),
  (837, "MBcBJjBmLYabBLhbBLmdMCsfBKb"), (1460, "DRCnCFp"), (1463, "DRCpCGopCFg"), (1464, "DRDfCFg"),
  (1465, "DREhCFl"),
  (1468, "DRDgCFgbCFhbCFibCFjbCFkbCFlbCFmcCFobCFpbCFqbCFrbCFscCFucCFwbCFxcCFzbCGacCGcbCGd"),
  (1468, "DREeCGebCGfbCGg"), (1471, "DREiCFhbCFrbCGa"), (1473, "DRDaCGfcDREf"),
  (1474, "DRDbCGfcDREf"), (1619, "CIkCIp"), (1620, "CIlCIpbCJwcCJyFyCPhcCOnrCPe"), (1621, "CInCIp"),
  (2364, "DMfDMeiDMmdDMpBkDLlbDLmbDLnbDLsbDLxbDLybDMhbDMl"), (2492, "DTcDQvbDQwcDRj"),
  (2494, "DSlDSh"), (2519, "DSmDSh"), (2620, "DWlDWkdDWqBjDVibDVjbDVodDWd"), (2876, "EHwEFpbEFq"),
  (2878, "EHfEHb"), (2902, "EHcEHb"), (2903, "EHgEHb"), (3006, "EMcELybELz"), (3031, "EKaEJyCeELy"),
  (3158, "EQyEQw"), (3266, "EVyEVu"), (3285, "EVoEVnhEVueEVy"), (3286, "EVwEVu"),
  (3390, "FAwFAsbFAt"), (3415, "FAyFAs"), (3530, "FGkFGjdFGm"), (3535, "FGmFGj"), (3551, "FGoFGj"),
  (3954, "FWdFWb"), (3956, "FWfFWb"), (3968, "FWgFYocFYpjFWb"), (4021, "FVtFUeDcFXg"),
  (4023, "FUhFUgkFUqfFUvfFVafFVfCdFXikFXsfFXxfFYcfFYh"), (4142, "GDaGCz"),
  (6965, "KGcKGbcKGdcKGfcKGhcKGjeKGnBpKIccKIedKIgbKIhcKIk"),
  (12441, "SHoSHncSHpcSHrcSHtcSHvcSHxcSHzcSIbcSIdcSIfcSIhcSIjdSImcSIocSIqhSIxdSJadSJddSJg"),
  (12441, "SJkSJjySHikSKroSLfcSLhcSLjcSLlcSLncSLpcSLrcSLtcSLvcSLxcSLzcSMbdSMecSMgcSMihSMp"),
  (12441, "SMtSMsdSMvdSMydSNbySLadSNvbSNwbSNxbSNyeSOj"),
  (12442, "SIzSIxdSJadSJddSJgdSJjDgSMpdSMsdSMvdSMydSNb"), (69818, "DZGcDZGbcDZGdpDZGn"),
  (69927, "DZLuDZLxbDZLy"), (70462, "EAGpEAGl"), (70487, "EAGqEAGl"), (70832, "EAUuEAUr"),
  (70842, "EAUtEAUr"), (70845, "EAUwEAUr"), (71087, "EBEoEBEmbEBEn"), (71984, "ECMyECMv"),
  (119141, "GUGcGUFvbGUFwDoGUJpbGUJq"), (119150, "GUGeGUGdDpGUJrbGUJs"),
  (119151, "GUGfGUGdDqGUJrbGUJs"), (119152, "GUGgGUGd"), (119153, "GUGhGUGd"), (119154, "GUGiGUGd")]

/-- Composites that are never composed again. -/
def loneComposites : List (Nat × Nat) := rangesFrom 0 (numbers
  ["BGeaCHwhEvbcaDgadaBjcdaJubBMkakafafafanakacbcajasakafafafanaKHfaDAWnacalmcecacbcbciDDBsgDjf"])

/-- Letters and signs that stand for another character. -/
def aliasSigns : List (Nat × Nat) := [
  (832, 768), (833, 769), (835, 787), (884, 697), (894, 59), (903, 183), (8049, 940), (8051, 941),
  (8053, 942), (8055, 943), (8057, 972), (8059, 973), (8061, 974), (8123, 902), (8126, 953), (8137,
  904), (8139, 905), (8147, 912), (8155, 906), (8163, 944), (8171, 910), (8174, 901), (8175, 96),
  (8185, 908), (8187, 911), (8189, 180), (8192, 8194), (8193, 8195), (8486, 937), (8490, 75), (8491,
  197), (9001, 12296), (9002, 12297)]

/-- Ideographs kept for compatibility: the first of a run, and what those of the run stand for. -/
def aliasRuns : List (Nat × String) := [
  (63744, "豈更車賈滑串句龜龜契金喇奈懶癩羅蘿螺裸邏樂洛烙珞落酪駱亂卵欄爛蘭鸞嵐濫藍襤拉"),
  (63782, "臘蠟廊朗浪狼郎來冷勞擄櫓爐盧老蘆虜路露魯鷺碌祿綠菉錄鹿論壟弄籠聾牢磊賂雷壘屢"),
  (63820, "樓淚漏累縷陋勒肋凜凌稜綾菱陵讀拏樂諾丹寧怒率異北磻便復不泌數索參塞省葉說殺辰"),
  (63858, "沈拾若掠略亮兩凉梁糧良諒量勵呂女廬旅濾礪閭驪麗黎力曆歷轢年憐戀撚漣煉璉秊練聯"),
  (63896, "輦蓮連鍊列劣咽烈裂說廉念捻殮簾獵令囹寧嶺怜玲瑩羚聆鈴零靈領例禮醴隸惡了僚寮尿"),
  (63934, "料樂燎療蓼遼龍暈阮劉杻柳流溜琉留硫紐類六戮陸倫崙淪輪律慄栗率隆利吏履易李梨泥"),
  (63972, "理痢罹裏裡里離匿溺吝燐璘藺隣鱗麟林淋臨立笠粒狀炙識什茶刺切度拓糖宅洞暴輻行降"),
  (64010, "見廓兀嗀"), (64016, "塚"), (64018, "晴"),
  (64021, "凞猪益礼神祥福靖精羽"), (64032, "蘒"), (64034, "諸"),
  (64037, "逸都"),
  (64042, "飯飼館鶴郞隷侮僧免勉勤卑喝嘆器塀墨層屮悔慨憎懲敏既暑梅海渚漢煮爫琢碑社祉祈祐"),
  (64080, "祖祝禍禎穀突節練縉繁署者臭艹艹著褐視謁謹賓贈辶逸難響頻恵𤋮舘"),
  (64112, "並况全侀充冀勇勺喝啕喙嗢塚墳奄奔婢嬨廒廙彩徭惘慎愈憎慠懲戴揄搜摒敖晴朗望杖歹"),
  (64150, "殺流滛滋漢瀞煮瞧爵犯猪瑱甆画瘝瘟益盛直睊着磌窱節类絛練缾者荒華蝹襁覆視調諸請"),
  (64188, "謁諾諭謹變贈輸遲醙鉶陼難靖韛響頋頻鬒龜𢡊𢡄𣏕㮝䀘䀹𥉉𥳐𧻓齃龎"),
  (194560, "丽丸乁𠄢你侮侻倂偺備僧像㒞𠘺免兔兤具𠔜㒹內再𠕋冗冤仌冬况𩇟凵刃㓟刻剆割剷㔕勇"),
  (194598, "勉勤勺包匆北卉卑博即卽卿卿卿𠨬灰及叟𠭣叫叱吆咞吸呈周咢哶唐啓啣善善喙喫喳嗂圖"),
  (194636, "嘆圗噑噴切壮城埴堍型堲報墬𡓤売壷夆多夢奢𡚨𡛪姬娛娧姘婦㛮㛼嬈嬾嬾𡧈寃寘寧寳𡬘"),
  (194674, "寿将当尢㞁屠屮峀岍𡷤嵃𡷦嵮嵫嵼巡巢㠯巽帨帽幩㡢𢆃㡼庰庳庶廊𪎒廾𢌱𢌱舁弢弢㣇𣊸"),
  (194712, "𦇚形彫㣣徚忍志忹悁㤺㤜悔𢛔惇慈慌慎慌慺憎憲憤憯懞懲懶成戛扝抱拔捐𢬌挽拼捨掃揤"),
  (194750, "𢯱搢揅掩㨮摩摾撝摷㩬敏敬𣀊旣書晉㬙暑㬈㫤冒冕最暜肭䏙朗望朡杞杓𣏃㭉柺枅桒梅𣑭"),
  (194788, "梎栟椔㮝楂榣槪檨𣚣櫛㰘次𣢧歔㱎歲殟殺殻𣪍𡴋𣫺汎𣲼沿泍汧洖派海流浩浸涅𣴞洴港湮"),
  (194826, "㴳滋滇𣻑淹潮𣽞𣾎濆瀹瀞瀛㶖灊災灷炭𠔥煅𤉣熜𤎫爨爵牐𤘈犀犕𤜵𤠔獺王㺬玥㺸㺸瑇瑜"),
  (194864, "瑱璅瓊㼛甤𤰶甾𤲒異𢆟瘐𤾡𤾸𥁄㿼䀈直𥃳𥃲𥄙𥄳眞真真睊䀹瞋䁆䂖𥐝硎碌磌䃣𥘦祖𥚚𥛅"),
  (194902, "福秫䄯穀穊穏𥥼𥪧𥪧竮䈂𥮫篆築䈧𥲀糒䊠糨糣紀𥾆絣䌁緇縂繅䌴𦈨𦉇䍙𦋙罺𦌾羕翺者𦓚"),
  (194940, "𦔣聠𦖨聰𣍟䏕育脃䐋脾媵𦞧𦞵𣎓𣎜舁舄辞䑫芑芋芝劳花芳芽苦𦬼若茝荣莭茣莽菧著荓菊"),
  (194978, "菌菜𦰶𦵫𦳕䔫蓱蓳蔖𧏊蕤𦼬䕝䕡𦾱𧃒䕫虐虜虧虩蚩蚈蜎蛢蝹蜨蝫螆䗗蟡蠁䗹衠衣𧙧裗裞"),
  (195016, "䘵裺㒻𧢮𧥦䚾䛇誠諭變豕𧲨貫賁贛起𧼯𠠄跋趼跰𠣞軔輸𨗒𨗭邔郱鄑𨜮鄛鈸鋗鋘鉼鏹鐕𨯺"),
  (195054, "開䦕閷𨵷䧦雃嶲霣𩅅𩈚䩮䩶韠𩐊䪲𩒖頋頋頩𩖶飢䬳餩馧駂駾䯎𩬰鬒鱀鳽䳎䳭鵧𪃎䳸𪄅𪈎"),
  (195092, "𪊑麻䵖黹黾鼅鼏鼖鼻𪘀")]

def aliasOf? (n : Nat) : Option Nat :=
  if n < 0xF900 then aliasSigns.lookup n
  else aliasRuns.findSome? fun (first, targets) =>
    if first ≤ n then targets.toList[n - first]?.map Char.toNat else none

def combiningClass (n : Nat) : Nat :=
  if n < 0x300 then 0
  else match combiningClasses.find? fun r => r.1 ≤ n && n ≤ r.2.1 with
    | some r => r.2.2
    | none => 0

/-- A character taken apart as far as it goes; none of the tables nests deeper than `fuel`. -/
def decomposeWith : Nat → Nat → List Nat
  | 0, n => [n]
  | fuel + 1, n =>
    if n < 0xC0 then [n]
    else if 0xAC00 ≤ n ∧ n ≤ 0xD7A3 then
      let s := n - 0xAC00
      let lv := [0x1100 + s / 588, 0x1161 + s % 588 / 28]
      if s % 28 = 0 then lv else lv ++ [0x11A7 + s % 28]
    else match composites.lookup n with
      | some (base, mark) => decomposeWith fuel base ++ [mark]
      | none =>
        match aliasOf? n with
        | some m => decomposeWith fuel m
        | none => [n]

def decompose (n : Nat) : List Nat := decomposeWith 6 n

/-- Puts a mark before the marks of higher classes that stand at the end. The text is kept
reversed. -/
def insertMark (n : Nat) : List Nat → List Nat
  | [] => [n]
  | m :: rest =>
    let k := combiningClass n
    if k ≠ 0 ∧ combiningClass m > k then m :: insertMark n rest else n :: m :: rest

def compose? (base mark : Nat) : Option Nat :=
  if 0x1100 ≤ base ∧ base ≤ 0x1112 ∧ 0x1161 ≤ mark ∧ mark ≤ 0x1175 then
    some (0xAC00 + (base - 0x1100) * 588 + (mark - 0x1161) * 28)
  else if 0xAC00 ≤ base ∧ base ≤ 0xD7A3 ∧ (base - 0xAC00) % 28 = 0 ∧ 0x11A8 ≤ mark ∧ mark ≤ 0x11C2
  then some (base + (mark - 0x11A7))
  else
    (composites.find? fun t =>
      t.2.1 == base && t.2.2 == mark && !loneComposites.any (inRange t.1)).map (·.1)

/-- Composes marks with the base before them. `base` is the last starter, `marks` what stands
between it and the next character, reversed, and `done` the text before, reversed. -/
def recompose (done : List Nat) (base : Option Nat) (marks : List Nat) : List Nat → List Nat
  | [] => (marks ++ (base.toList ++ done)).reverse
  | n :: rest =>
    let k := combiningClass n
    match base with
    | none =>
      if k = 0 then recompose (marks ++ done) (some n) [] rest
      else recompose done none (n :: marks) rest
    | some b =>
      let blocked := match marks.head? with
        | some m => combiningClass m = 0 || combiningClass m ≥ k
        | none => false
      match if blocked then none else compose? b n with
      | some c => recompose done (some c) marks rest
      | none =>
        if k = 0 then recompose (marks ++ b :: done) (some n) [] rest
        else recompose done (some b) (n :: marks) rest

def composed (s : String) : String :=
  if s.toList.all fun c => c.toNat < 0x300 then s
  else
    let apart := s.toList.flatMap fun c => decompose c.toNat
    let ordered := (apart.foldl (fun done n => insertMark n done) []).reverse
    String.ofList ((recompose [] none [] ordered).map Char.ofNat)

end Schemata.Text
